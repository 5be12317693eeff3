import ConfidentialCompute.Enclave.ConfigRequests
import ConfidentialCompute.Host.Steps

/-!
# The configuration of a host and of its enclave

The host keeps a copy of the enclave's configuration. It forwards `/config` and
`/publicKeys` requests and takes the copy from the answers. Requests are in flight
concurrently, the answers are processed in any order, and nothing in an answer tells which
of two configurations came later.

`Deployment` runs the transition systems of both programs with the requests in flight
between them. Its ghost state is what the enclave has announced so far, and how much of it
the host's copy stands for; an answer is stamped with what had been announced when it was
given. `InSync` relates the two copies along a run.
-/

namespace ConfidentialCompute

open Go Runs

/-! ## Requests and answers -/

/-- A request that the host forwards to the enclave. -/
inductive ProxiedRequest where
  | config (request : ConfigRequest)
  | publicKeys

/-- What comes of it for the handler that has forwarded it. -/
inductive ProxiedAnswer where
  | setConfig (answer : Forwarded SetConfigResponse)
  | updateConfig (answer : Forwarded UpdateConfigResponse)
  | publicKeys (answer : Forwarded PublicKeyResponse)

def ProxiedAnswer.action : ProxiedAnswer → HostAction
  | .setConfig answer => .setConfig answer
  | .updateConfig answer => .updateConfig answer
  | .publicKeys answer => .getPublicKeys .get answer

/-- After a panic of the enclave's handler the host's client reports an error. The answer to
a PATCH request does not occur here. -/
def ConfigReply.toSetConfig : ConfigReply → Forwarded SetConfigResponse
  | .set resp => .answered statusOK (some resp)
  | .error status _ | .update status _ => .answered status none
  | .aborted => .unreachable

def ConfigReply.toUpdateConfig : ConfigReply → Forwarded UpdateConfigResponse
  | .update status resp => .answered status (some resp)
  | .error status _ => .answered status none
  | .set _ => .answered statusOK none
  | .aborted => .unreachable

def ConfigRequest.answer (reply : ConfigReply) : ConfigRequest → ProxiedAnswer
  | .set _ _ => .setConfig reply.toSetConfig
  | .update _ => .updateConfig reply.toUpdateConfig

def ConfigRequest.action (attestor : AttestorReply) : ConfigRequest → EnclaveAction
  | .set method body => .setConfig method body attestor
  | .update body => .updateConfig body attestor

def EnclaveAction.isConfig : EnclaveAction → Bool
  | .setConfig _ _ _ | .updateConfig _ _ => true
  | _ => false

/-- GET `/publicKeys`, as far as the configuration is concerned: `result` is what the
handler finds after it has read the configuration, namely keys and their attestation, or
the status of an error. The attestation itself is a step of its own. -/
def EnclaveServer.handleGetPublicKeys (s : EnclaveServer) (result : Except Nat PublicKeyResponse) :
    Forwarded PublicKeyResponse :=
  if s.config.isZero then .answered statusServiceUnavailable none
  else
    match result with
    | .error status => .answered status none
    | .ok resp => .answered statusOK (some { resp with config := s.config })

/-! ## What an answer does -/

/-- The configuration that a 200 answer says is in force. -/
def ConfigReply.announces : ConfigReply → Option EnclaveConfig
  | .set resp => some resp.config
  | .update status resp =>
      if status = statusOK ∧ resp.applied = true then some resp.config else none
  | .error _ _ | .aborted => none

namespace HostServer

variable {crypto : Crypto} {flags : HostFlags} {s s' : HostServer} {now : Int}

/-- The configuration that the host takes from an answer, if any. -/
def adopts (s : HostServer) : ProxiedAnswer → Option EnclaveConfig
  | .setConfig (.answered status (some resp)) =>
      if status = statusOK then some resp.config else none
  | .updateConfig (.answered status (some resp)) =>
      if status = statusOK ∧ resp.applied = true then some resp.config else none
  | .publicKeys (.answered status (some resp)) =>
      if status = statusOK ∧ s.config.isZero = true ∧ resp.config.t ≠ 0 ∧
          resp.config.signers.length ≠ 0 ∧ resp.config.masterPublicKey.length ≠ 0 then
        some resp.config
      else none
  | _ => none

theorem config_handleSetConfig {answer : Forwarded SetConfigResponse} :
    (s.handleSetConfig answer).1.config = (s.adopts (.setConfig answer)).getD s.config := by
  unfold handleSetConfig proxyConfig adopts
  cases answer with
  | answered status body =>
      dsimp only
      split
      · rename_i ok
        cases body <;> simp [ok]
      · rename_i failed
        cases body <;> simp [failed]
  | _ => rfl

theorem config_handleUpdateConfig {answer : Forwarded UpdateConfigResponse} :
    (s.handleUpdateConfig answer).1.config =
      (s.adopts (.updateConfig answer)).getD s.config := by
  unfold handleUpdateConfig proxyConfig adopts
  cases answer with
  | answered status body =>
      dsimp only
      split
      · rename_i ok
        cases body with
        | none => rfl
        | some resp =>
            cases applied : resp.applied <;> simp [ok, applied]
      · rename_i failed
        cases body <;> simp [failed]
  | _ => rfl

theorem config_maybeRecoverConfig {body : Option PublicKeyResponse} :
    (s.maybeRecoverConfig body).config =
      (s.adopts (.publicKeys (.answered statusOK body))).getD s.config := by
  unfold maybeRecoverConfig adopts
  split
  · rename_i kept
    cases body <;> simp [kept]
  · rename_i lost
    have zero : s.config.isZero = true := by simpa using lost
    cases body with
    | none => rfl
    | some resp =>
        dsimp only
        split
        · rename_i incomplete
          rw [if_neg (by tauto)]
          rfl
        · rename_i complete
          rw [if_pos (by tauto)]
          rfl

theorem config_handleGetPublicKeys {answer : Forwarded PublicKeyResponse} :
    (s.handleGetPublicKeys .get answer).1.config =
      (s.adopts (.publicKeys answer)).getD s.config := by
  unfold handleGetPublicKeys
  rw [if_neg (not_not.mpr rfl)]
  cases answer with
  | answered status body =>
      dsimp only
      split
      · rename_i ok
        rw [ok]
        exact config_maybeRecoverConfig
      · rename_i failed
        unfold adopts
        cases body <;> simp [failed]
  | _ => rfl

/-- A step that processes an answer replaces the configuration by what it adopts. -/
theorem config_step_answer {answer : ProxiedAnswer}
    (taken : step crypto flags s ⟨now, answer.action⟩ = some s') :
    s'.config = (s.adopts answer).getD s.config := by
  unfold step at taken
  split at taken
  · cases answer <;> cases taken
    · exact config_handleSetConfig
    · exact config_handleUpdateConfig
    · exact config_handleGetPublicKeys
  · cases taken

end HostServer

/-- The attestor does not fail a request that changes the configuration. -/
def EnclaveServer.AttestsChange (crypto : Crypto) (s : EnclaveServer) (now : Int)
    (request : ConfigRequest) (attestor : AttestorReply) : Prop :=
  ∀ newConfig err, s.Applies crypto now request newConfig → attestor = .error err →
    s.configSet = true ∧ s.config = newConfig

/-- What the host makes of the answer to a configuration request, and what the answer says
about the enclave. -/
structure Announced (s s' : EnclaveServer) (request : ConfigRequest) (reply : ConfigReply) :
    Prop where
  adopted : ∀ host : HostServer, host.adopts (request.answer reply) = reply.announces
  config : s'.config = reply.announces.getD s.config
  configSet : s'.configSet = true → s.configSet = true ∨ reply.announces ≠ none

/-- An answer that announces nothing leaves the host as it is. -/
theorem adopts_answer_failed {reply : ConfigReply} (failed : reply.Failed)
    (request : ConfigRequest) (host : HostServer) :
    host.adopts (request.answer reply) = none ∧ reply.announces = none := by
  obtain ⟨notOK, _⟩ := failed
  cases reply with
  | error status message => cases request <;> exact ⟨rfl, rfl⟩
  | aborted => cases request <;> exact ⟨rfl, rfl⟩
  | set resp => exact absurd rfl notOK
  | update status resp =>
      have other : status ≠ statusOK := fun same => notOK (congrArg some same)
      cases request <;>
        simp [ConfigRequest.answer, ConfigReply.toSetConfig, ConfigReply.toUpdateConfig,
          HostServer.adopts, ConfigReply.announces, other]

/-- An enclave that attests what it changes announces every change. -/
theorem EnclaveServer.AttestsChange.announced {crypto : Crypto} {s : EnclaveServer} {now : Int}
    {request : ConfigRequest} {attestor : AttestorReply}
    (attests : s.AttestsChange crypto now request attestor) :
    Announced s (s.handleConfig crypto now attestor request).1 request
      (s.handleConfig crypto now attestor request).2 := by
  have outcome : ConfigOutcome crypto s now request attestor _ _ := handleConfig_outcome
  generalize s.handleConfig crypto now attestor request = after at outcome ⊢
  obtain ⟨s', reply⟩ := after
  cases outcome with
  | refused idle failed =>
      have silent := adopts_answer_failed failed request
      refine ⟨fun host => (silent host).1.trans (silent host).2.symm, ?_, Or.inl⟩
      rw [(silent (.newHostServer 0)).2]
      rfl
  | current idle isSet => exact ⟨fun _ => rfl, rfl, fun _ => Or.inl isSet⟩
  | @voted _ _ _ resp idle config configSet notApplied =>
      have silent : (ConfigReply.update statusAccepted resp).announces = none := by
        simp [ConfigReply.announces, notApplied]
      refine ⟨fun host => ?_, ?_, fun isSet => Or.inl (configSet ▸ isSet)⟩
      · rw [silent]
        simp [ConfigRequest.answer, ConfigReply.toUpdateConfig, HostServer.adopts, notApplied]
      · rw [silent]
        exact config
  | set applies installs | updated applies installs =>
      exact ⟨fun _ => rfl, installs.config, fun _ => Or.inr (Option.some_ne_none _)⟩
  | @unattested _ newConfig err message _ applies installs =>
      have failed : (ConfigReply.error statusInternalServerError message).Failed :=
        ConfigReply.failed_error (by decide) (by decide)
      have silent := adopts_answer_failed failed request
      obtain ⟨isSet, same⟩ := attests newConfig err applies rfl
      exact ⟨fun host => (silent host).1, installs.config.trans same.symm, fun _ => Or.inl isSet⟩

/-! ## Host and enclave together -/

/-- A request in flight; the answer to it carries how many configurations had been announced
when it was given. -/
inductive Exchange where
  | forwarded (request : ProxiedRequest)
  | answered (answer : ProxiedAnswer) (epoch : Nat)
  | processed

instance (exchange : Exchange) : Decidable (exchange = .processed) :=
  match exchange with
  | .processed => isTrue rfl
  | .forwarded _ => isFalse Exchange.noConfusion
  | .answered _ _ => isFalse Exchange.noConfusion

structure Deployment where
  host : HostServer
  enclave : EnclaveServer
  exchanges : List Exchange
  /-- The configurations of the 200 answers to `/config` requests, in the enclave's order. -/
  announced : List EnclaveConfig
  /-- The latest epoch of an answer from which the host has taken its configuration. -/
  held : Nat

inductive DeploymentLabel where
  | forward (request : ProxiedRequest)
  /-- The enclave handles a `/config` request. -/
  | serve (k : Nat) (now : Int) (attestor : AttestorReply)
  /-- The enclave handles a `/publicKeys` request. -/
  | serveKeys (k : Nat) (result : Except Nat PublicKeyResponse)
  /-- The host processes an answer. -/
  | receive (k : Nat) (now : Int)
  /-- Anything else that either program does. -/
  | host (l : HostLabel)
  | enclave (l : EnclaveLabel)

namespace Deployment

/-- A host without a configuration, and an enclave as it is started. -/
def init (host : HostServer) (enclave : EnclaveServer) : Deployment := ⟨host, enclave, [], [], 0⟩

def serve (p : Platform) (d : Deployment) (k : Nat) (now : Int) (attestor : AttestorReply)
    (request : ConfigRequest) : Option Deployment :=
  (d.enclave.step p ⟨now, request.action attestor⟩).map fun enclave =>
    let reply := ({ d.enclave with clock := now }.handleConfig p.toCrypto now attestor request).2
    let announced := d.announced ++ reply.announces.toList
    { d with
      enclave := enclave
      announced := announced
      exchanges := d.exchanges.set k (.answered (request.answer reply) announced.length) }

def receive (crypto : Crypto) (flags : HostFlags) (d : Deployment) (k : Nat) (now : Int)
    (answer : ProxiedAnswer) (epoch : Nat) : Option Deployment :=
  (HostServer.step crypto flags d.host ⟨now, answer.action⟩).map fun host =>
    { d with
      host := host
      exchanges := d.exchanges.set k .processed
      held := if (d.host.adopts answer).isSome then max d.held epoch else d.held }

def step (p : Platform) (flags : HostFlags) (d : Deployment) :
    DeploymentLabel → Option Deployment
  | .forward request => some { d with exchanges := d.exchanges ++ [.forwarded request] }
  | .serve k now attestor =>
      match d.exchanges[k]? with
      | some (.forwarded (.config request)) => d.serve p k now attestor request
      | _ => none
  | .serveKeys k result =>
      match d.exchanges[k]? with
      | some (.forwarded .publicKeys) =>
          some { d with
            exchanges := d.exchanges.set k
              (.answered (.publicKeys (d.enclave.handleGetPublicKeys result))
                d.announced.length) }
      | _ => none
  | .receive k now =>
      match d.exchanges[k]? with
      | some (.answered answer epoch) => d.receive p.toCrypto flags k now answer epoch
      | _ => none
  | .host l =>
      if l.action.isConfig then none
      else (HostServer.step p.toCrypto flags d.host l).map fun host => { d with host := host }
  | .enclave l =>
      if l.action.isConfig then none
      else (d.enclave.step p l).map fun enclave => { d with enclave := enclave }

/-- What a step can do. -/
inductive Moves (p : Platform) (flags : HostFlags) (d : Deployment) :
    DeploymentLabel → Deployment → Prop
  | forward (request : ProxiedRequest) :
    Moves p flags d (.forward request)
      { d with exchanges := d.exchanges ++ [.forwarded request] }
  | serve {k : Nat} {now : Int} {attestor : AttestorReply} {request : ConfigRequest}
      {enclave : EnclaveServer} :
    d.exchanges[k]? = some (.forwarded (.config request)) →
    d.enclave.step p ⟨now, request.action attestor⟩ = some enclave →
    Moves p flags d (.serve k now attestor)
      (let reply := ({ d.enclave with clock := now }.handleConfig p.toCrypto now attestor request).2
      let announced := d.announced ++ reply.announces.toList
      { d with
        enclave := enclave
        announced := announced
        exchanges := d.exchanges.set k (.answered (request.answer reply) announced.length) })
  | serveKeys {k : Nat} (result : Except Nat PublicKeyResponse) :
    d.exchanges[k]? = some (.forwarded .publicKeys) →
    Moves p flags d (.serveKeys k result)
      { d with
        exchanges := d.exchanges.set k
          (.answered (.publicKeys (d.enclave.handleGetPublicKeys result)) d.announced.length) }
  | receive {k : Nat} {now : Int} {answer : ProxiedAnswer} {epoch : Nat} {host : HostServer} :
    d.exchanges[k]? = some (.answered answer epoch) →
    HostServer.step p.toCrypto flags d.host ⟨now, answer.action⟩ = some host →
    Moves p flags d (.receive k now)
      { d with
        host := host
        exchanges := d.exchanges.set k .processed
        held := if (d.host.adopts answer).isSome then max d.held epoch else d.held }
  | host {l : HostLabel} {host : HostServer} : l.action.isConfig = false →
    HostServer.step p.toCrypto flags d.host l = some host →
    Moves p flags d (.host l) { d with host := host }
  | enclave {l : EnclaveLabel} {enclave : EnclaveServer} : l.action.isConfig = false →
    d.enclave.step p l = some enclave →
    Moves p flags d (.enclave l) { d with enclave := enclave }

theorem moves_of_step {p : Platform} {flags : HostFlags} {d d' : Deployment}
    {l : DeploymentLabel} (taken : step p flags d l = some d') : Moves p flags d l d' := by
  unfold step at taken
  cases l with
  | forward request =>
      cases taken
      exact .forward request
  | serve k now attestor =>
      dsimp only at taken
      split at taken
      · rename_i request found
        obtain ⟨enclave, served, rfl⟩ := Option.map_eq_some_iff.mp taken
        exact .serve found served
      · cases taken
  | serveKeys k result =>
      dsimp only at taken
      split at taken
      · rename_i found
        cases taken
        exact .serveKeys result found
      · cases taken
  | receive k now =>
      dsimp only at taken
      split at taken
      · rename_i answer epoch found
        obtain ⟨host, received, rfl⟩ := Option.map_eq_some_iff.mp taken
        exact .receive found received
      · cases taken
  | host l =>
      dsimp only at taken
      split at taken
      · cases taken
      · rename_i other
        obtain ⟨host, moved, rfl⟩ := Option.map_eq_some_iff.mp taken
        exact .host (Bool.eq_false_of_not_eq_true other) moved
  | enclave l =>
      dsimp only at taken
      split at taken
      · cases taken
      · rename_i other
        obtain ⟨enclave, moved, rfl⟩ := Option.map_eq_some_iff.mp taken
        exact .enclave (Bool.eq_false_of_not_eq_true other) moved

/-- The enclave attests what it changes, and the host does not go back: an answer that
changes its configuration is not older than one it has taken. -/
def Orderly (p : Platform) (d : Deployment) : DeploymentLabel → Prop
  | .serve k now attestor => ∀ request,
      d.exchanges[k]? = some (.forwarded (.config request)) →
        d.enclave.AttestsChange p.toCrypto now request attestor
  | .receive k _ => ∀ answer epoch config,
      d.exchanges[k]? = some (.answered answer epoch) →
        d.host.adopts answer = some config → config ≠ d.host.config → d.held ≤ epoch
  | _ => True

/-- Every request has been answered, and every answer processed. -/
def Settled (d : Deployment) : Prop := ∀ exchange ∈ d.exchanges, exchange = .processed

instance (d : Deployment) : Decidable d.Settled :=
  inferInstanceAs (Decidable (∀ exchange ∈ d.exchanges, exchange = .processed))

/-! ## Agreement -/

/-- The configuration in force when `n` had been announced. -/
def asOf (announced : List EnclaveConfig) (n : Nat) : Option EnclaveConfig :=
  (announced.take n).getLast?

theorem asOf_length {announced : List EnclaveConfig} :
    asOf announced announced.length = announced.getLast? := by
  unfold asOf
  rw [List.take_length]

theorem asOf_append {announced more : List EnclaveConfig} {n : Nat}
    (old : n ≤ announced.length) : asOf (announced ++ more) n = asOf announced n := by
  unfold asOf
  rw [List.take_append_of_le_length old]

variable {p : Platform} {flags : HostFlags} {d d' : Deployment} {l : DeploymentLabel}
  {host : HostServer} {enclave : EnclaveServer} {request : ConfigRequest} {reply : ConfigReply}
  {k : Nat}

/-- The host takes nothing else from the answer than what was in force when it was given. -/
def Truthful (announced : List EnclaveConfig) (answer : ProxiedAnswer) (epoch : Nat) : Prop :=
  epoch ≤ announced.length ∧ ∀ (host : HostServer) config config',
    host.adopts answer = some config → asOf announced epoch = some config' → config = config'

/-- Both copies are configurations the enclave has announced, the enclave's the latest, and
each later one than the host's is on its way to the host. -/
structure InSync (d : Deployment) : Prop where
  configured : d.enclave.configSet = true → d.announced ≠ []
  enclave : ∀ config, d.announced.getLast? = some config → d.enclave.config = config
  host : ∀ config, asOf d.announced d.held = some config → d.host.config = config
  bound : d.held ≤ d.announced.length
  answers : ∀ (k : Nat) answer epoch, d.exchanges[k]? = some (.answered answer epoch) →
    Truthful d.announced answer epoch
  pending : ∀ n, d.held < n → n ≤ d.announced.length → ∃ (k : Nat) (answer : ProxiedAnswer),
    d.exchanges[k]? = some (.answered answer n) ∧
      ∀ host : HostServer, host.adopts answer ≠ none

theorem InSync.init (unset : enclave.configSet = false) :
    InSync (Deployment.init host enclave) where
  configured isSet := by cases unset.symm.trans isSet
  enclave config latest := by cases latest
  host config latest := by cases latest
  bound := Nat.le_refl 0
  answers k answer epoch found := by cases found
  pending n later bound := absurd (Nat.lt_of_lt_of_le later bound) (Nat.lt_irrefl 0)

theorem Truthful.append {announced more : List EnclaveConfig} {answer : ProxiedAnswer} {epoch : Nat}
    (truthful : Truthful announced answer epoch) :
    Truthful (announced ++ more) answer epoch := by
  obtain ⟨bound, truth⟩ := truthful
  refine ⟨?_, fun host config config' adopted inForce => ?_⟩
  · rw [List.length_append]
    omega
  · rw [asOf_append bound] at inForce
    exact truth host config config' adopted inForce

/-- Steps that leave both configurations, the announcements and the answers alone. -/
theorem InSync.frame (inv : InSync d)
    (configSet : d'.enclave.configSet = true → d.enclave.configSet = true)
    (enclave : d'.enclave.config = d.enclave.config) (host : d'.host.config = d.host.config)
    (announced : d'.announced = d.announced) (held : d'.held = d.held)
    (kept : ∀ (k : Nat) answer epoch, d.exchanges[k]? = some (.answered answer epoch) →
      d'.exchanges[k]? = some (.answered answer epoch))
    (answers : ∀ (k : Nat) answer epoch, d'.exchanges[k]? = some (.answered answer epoch) →
      Truthful d.announced answer epoch) : InSync d' where
  configured isSet := by
    rw [announced]
    exact inv.configured (configSet isSet)
  enclave config latest := by
    rw [enclave]
    exact inv.enclave config (announced ▸ latest)
  host config latest := by
    rw [announced, held] at latest
    rw [host]
    exact inv.host config latest
  bound := by
    rw [announced, held]
    exact inv.bound
  answers k answer epoch found := by
    rw [announced]
    exact answers k answer epoch found
  pending n later bound := by
    rw [held] at later
    rw [announced] at bound
    obtain ⟨k, answer, found, always⟩ := inv.pending n later bound
    exact ⟨k, answer, kept k answer n found, always⟩

/-- An exchange stands where it stood after a different one has moved on. -/
theorem getElem?_set_other {exchanges : List Exchange} {j : Nat} {before after exchange : Exchange}
    (at_ : exchanges[k]? = some before) (different : before ≠ exchange)
    (found : exchanges[j]? = some exchange) :
    (exchanges.set k after)[j]? = some exchange := by
  have other : k ≠ j := by
    intro same
    subst same
    exact different (Option.some.inj (at_.symm.trans found))
  rw [List.getElem?_set_ne other, found]

/-- What stands at a place after an exchange has moved on is the new state or an old one. -/
theorem of_getElem?_set {exchanges : List Exchange} {j : Nat} {after exchange : Exchange}
    (found : (exchanges.set k after)[j]? = some exchange) :
    exchange = after ∨ exchanges[j]? = some exchange := by
  rw [List.getElem?_set] at found
  split at found
  · split at found
    · exact Or.inl (Option.some.inj found).symm
    · cases found
  · exact Or.inr found

theorem InSync.forward (inv : InSync d) (request : ProxiedRequest) :
    InSync { d with exchanges := d.exchanges ++ [.forwarded request] } := by
  refine inv.frame (fun isSet => isSet) rfl rfl rfl rfl ?_ ?_
  · intro k answer epoch found
    show (d.exchanges ++ [_])[k]? = _
    rw [Heap.getElem?_alloc, if_neg (Nat.ne_of_lt (Heap.lt_of_getElem? found)), found]
  · intro k answer epoch found
    rw [Heap.getElem?_alloc] at found
    split at found
    · cases found
    · exact inv.answers k answer epoch found

theorem adopts_publicKeys {result : Except Nat PublicKeyResponse} {config : EnclaveConfig}
    (adopted : host.adopts (.publicKeys (enclave.handleGetPublicKeys result)) = some config) :
    config = enclave.config := by
  unfold EnclaveServer.handleGetPublicKeys at adopted
  split at adopted
  · cases adopted
  · split at adopted
    · cases adopted
    · unfold HostServer.adopts at adopted
      dsimp only at adopted
      split at adopted
      · exact (Option.some.inj adopted).symm
      · cases adopted

/-- The enclave keeps its configuration and answers with nothing newer. -/
theorem InSync.answer (inv : InSync d) {request : ProxiedRequest} {answer : ProxiedAnswer}
    (found : d.exchanges[k]? = some (.forwarded request))
    (isSet : enclave.configSet = true → d.enclave.configSet = true)
    (config : enclave.config = d.enclave.config)
    (truthful : ∀ (host : HostServer) config, host.adopts answer = some config →
      config = d.enclave.config) :
    InSync { d with
      enclave := enclave
      exchanges := d.exchanges.set k (.answered answer d.announced.length) } := by
  refine inv.frame isSet config rfl rfl rfl ?_ ?_
  · intro j answer epoch isAnswer
    exact getElem?_set_other found Exchange.noConfusion isAnswer
  · intro j answer epoch isAnswer
    rcases of_getElem?_set isAnswer with new | old
    · cases new
      refine ⟨Nat.le_refl _, fun host config config' adopted inForce => ?_⟩
      rw [asOf_length] at inForce
      rw [truthful host config adopted]
      exact inv.enclave config' inForce
    · exact inv.answers j answer epoch old

theorem InSync.serveKeys (inv : InSync d) (result : Except Nat PublicKeyResponse)
    (found : d.exchanges[k]? = some (.forwarded .publicKeys)) :
    InSync { d with
      exchanges := d.exchanges.set k
        (.answered (.publicKeys (d.enclave.handleGetPublicKeys result)) d.announced.length) } :=
  inv.answer found (fun isSet => isSet) rfl fun _ _ adopted => adopts_publicKeys adopted

/-- The enclave answers a configuration request and announces nothing. -/
theorem InSync.serveSilent (inv : InSync d)
    (found : d.exchanges[k]? = some (.forwarded (.config request)))
    (announced : Announced d.enclave enclave request reply) (silent : reply.announces = none) :
    InSync { d with
      enclave := enclave
      exchanges := d.exchanges.set k (.answered (request.answer reply) d.announced.length) } := by
  refine inv.answer found ?_ ?_ ?_
  · intro isSet
    rcases announced.configSet isSet with was | announces
    · exact was
    · exact absurd silent announces
  · rw [announced.config, silent]
    rfl
  · intro host config adopted
    rw [announced.adopted host, silent] at adopted
    cases adopted

/-- The enclave answers a configuration request and announces a configuration. -/
theorem InSync.serveNew (inv : InSync d) {config : EnclaveConfig}
    (found : d.exchanges[k]? = some (.forwarded (.config request)))
    (announced : Announced d.enclave enclave request reply) (said : reply.announces = some config) :
    InSync { d with
      enclave := enclave
      announced := d.announced ++ [config]
      exchanges := d.exchanges.set k
        (.answered (request.answer reply) (d.announced ++ [config]).length) } := by
  have adopted : ∀ host : HostServer, host.adopts (request.answer reply) = some config :=
    fun host => (announced.adopted host).trans said
  refine ⟨fun _ => by simp, ?_, ?_, ?_, ?_, ?_⟩
  · intro latest isLatest
    rw [List.getLast?_concat] at isLatest
    show enclave.config = latest
    rw [announced.config, said]
    exact Option.some.inj isLatest
  · intro held isHeld
    rw [asOf_append inv.bound] at isHeld
    exact inv.host held isHeld
  · show d.held ≤ (d.announced ++ [config]).length
    rw [List.length_append]
    exact Nat.le_add_right_of_le inv.bound
  · intro j answer epoch isAnswer
    rcases of_getElem?_set isAnswer with new | old
    · cases new
      refine ⟨Nat.le_refl _, fun host config' config'' taken latest => ?_⟩
      rw [asOf_length, List.getLast?_concat] at latest
      rw [adopted host] at taken
      exact Option.some.inj (taken.symm.trans latest)
    · exact (inv.answers j answer epoch old).append
  · intro n later bound
    have length : (d.announced ++ [config]).length = d.announced.length + 1 := by simp
    by_cases old : n ≤ d.announced.length
    · obtain ⟨j, answer, isAnswer, always⟩ := inv.pending n later old
      exact ⟨j, answer, getElem?_set_other found Exchange.noConfusion isAnswer, always⟩
    · -- The newest configuration is the one in the answer just given.
      have newest : n = (d.announced ++ [config]).length := by
        have bound : n ≤ (d.announced ++ [config]).length := bound
        omega
      refine ⟨k, request.answer reply, ?_, fun host => ?_⟩
      · show (d.exchanges.set k _)[k]? = _
        rw [List.getElem?_set_self (Heap.lt_of_getElem? found), newest]
      · rw [adopted host]
        exact Option.some_ne_none config

theorem InSync.serve (inv : InSync d)
    (found : d.exchanges[k]? = some (.forwarded (.config request)))
    (announced : Announced d.enclave enclave request reply) :
    InSync { d with
      enclave := enclave
      announced := d.announced ++ reply.announces.toList
      exchanges := d.exchanges.set k (.answered (request.answer reply)
        (d.announced ++ reply.announces.toList).length) } := by
  cases said : reply.announces with
  | none =>
      rw [Option.toList_none, List.append_nil]
      exact inv.serveSilent found announced said
  | some config =>
      rw [Option.toList_some]
      exact inv.serveNew found announced said

theorem InSync.receive (inv : InSync d) {answer : ProxiedAnswer} {epoch : Nat}
    (found : d.exchanges[k]? = some (.answered answer epoch))
    (orderly : ∀ config, d.host.adopts answer = some config → config ≠ d.host.config →
      d.held ≤ epoch)
    (config : host.config = (d.host.adopts answer).getD d.host.config) :
    InSync { d with
      host := host
      exchanges := d.exchanges.set k .processed
      held := if (d.host.adopts answer).isSome then max d.held epoch else d.held } := by
  obtain ⟨bound, truth⟩ := inv.answers k answer epoch found
  have answers : ∀ (j : Nat) answer' epoch',
      (d.exchanges.set k .processed)[j]? = some (.answered answer' epoch') →
        Truthful d.announced answer' epoch' := by
    intro j answer' epoch' isAnswer
    rcases of_getElem?_set isAnswer with new | old
    · cases new
    · exact inv.answers j answer' epoch' old
  cases adopts : d.host.adopts answer with
  | none =>
      rw [adopts] at config
      refine ⟨inv.configured, inv.enclave, fun held isHeld => config.trans (inv.host held isHeld),
        inv.bound, answers, fun n later bound => ?_⟩
      obtain ⟨j, answer', isAnswer, always⟩ := inv.pending n later bound
      refine ⟨j, answer', getElem?_set_other found (fun same => ?_) isAnswer, always⟩
      cases same
      exact always d.host adopts
  | some taken =>
      have taken' : host.config = taken := by
        rw [config, adopts]
        rfl
      refine ⟨inv.configured, inv.enclave, ?_, Nat.max_le.mpr ⟨inv.bound, bound⟩, answers, ?_⟩
      · intro held isHeld
        have isHeld : asOf d.announced (max d.held epoch) = some held := isHeld
        by_cases inOrder : d.held ≤ epoch
        · rw [Nat.max_eq_right inOrder] at isHeld
          exact taken'.trans (truth d.host taken held adopts isHeld)
        · -- An older answer is taken only if it changes nothing.
          have same : taken = d.host.config := by
            by_contra changes
            exact inOrder (orderly taken adopts changes)
          rw [Nat.max_eq_left (by omega)] at isHeld
          exact (taken'.trans same).trans (inv.host held isHeld)
      · intro n later bound
        have later : max d.held epoch < n := later
        obtain ⟨j, answer', isAnswer, always⟩ := inv.pending n (by omega) bound
        refine ⟨j, answer', getElem?_set_other found (fun same => ?_) isAnswer, always⟩
        cases same
        omega

/-- A step that handles a configuration request, with its answer. -/
theorem announced_of_step {s s' : EnclaveServer} {now : Int} {attestor : AttestorReply}
    (attests : s.AttestsChange p.toCrypto now request attestor)
    (taken : s.step p ⟨now, request.action attestor⟩ = some s') :
    Announced s s' request
      ({ s with clock := now }.handleConfig p.toCrypto now attestor request).2 := by
  have attests' : { s with clock := now }.AttestsChange p.toCrypto now request attestor := by
    intro newConfig err applies failure
    refine attests newConfig err ?_ failure
    cases applies with
    | set allowed => exact .set allowed
    | update vote enough => exact .update ⟨vote.configSet, vote.verified, vote.changes⟩ enough
  have handled : s' = ({ s with clock := now }.handleConfig p.toCrypto now attestor request).1 := by
    have acts := (EnclaveServer.step_eq_some taken).2
    cases request <;> exact (Option.some.inj acts).symm
  obtain ⟨adopted, config, configSet⟩ := attests'.announced
  rw [handled]
  exact ⟨adopted, config, configSet⟩

/-- Every other step of the enclave leaves its configuration alone. -/
theorem enclave_config_kept {s s' : EnclaveServer} {l : EnclaveLabel}
    (other : l.action.isConfig = false) (taken : s.step p l = some s') :
    s'.config = s.config ∧ s'.configSet = s.configSet := by
  have effect := EnclaveServer.step_config taken
  generalize l.action = action at other effect
  cases effect with
  | same same => exact ⟨same.config, same.configSet⟩
  | collected same => exact ⟨same.config, same.configSet⟩
  | posted _ _ => cases other
  | voted _ _ _ => cases other
  | applied _ _ _ => cases other

/-- Every other step of the host leaves its configuration alone. -/
theorem host_config_kept {crypto : Crypto} {s s' : HostServer} {l : HostLabel}
    (other : l.action.isConfig = false) (taken : HostServer.step crypto flags s l = some s') :
    s'.config = s.config := by
  cases HostServer.step_configMove taken with
  | kept kept => exact kept.config
  | read _ config _ => exact config
  | adopted answer _ => cases other.symm.trans answer

theorem InSync.step (inv : InSync d) (orderly : d.Orderly p l)
    (taken : Deployment.step p flags d l = some d') : InSync d' := by
  cases moves_of_step taken with
  | forward request => exact inv.forward request
  | serve found served =>
      exact inv.serve found (announced_of_step (orderly _ found) served)
  | serveKeys result found => exact inv.serveKeys result found
  | receive found received =>
      exact inv.receive found (fun config => orderly _ _ config found)
        (HostServer.config_step_answer received)
  | host other moved =>
      have config := host_config_kept other moved
      exact inv.frame (fun isSet => isSet) rfl config rfl rfl (fun _ _ _ found => found)
        inv.answers
  | enclave other moved =>
      have config := enclave_config_kept other moved
      exact inv.frame (config.2 ▸ ·) config.1 rfl rfl rfl (fun _ _ _ found => found)
        inv.answers

/-- With nothing left in flight both copies are the latest configuration announced. -/
theorem InSync.agree (inv : InSync d) (settled : d.Settled)
    (configured : d.enclave.configSet = true) : d.host.config = d.enclave.config := by
  have caughtUp : d.held = d.announced.length := by
    refine Nat.le_antisymm inv.bound ?_
    by_contra behind
    obtain ⟨k, answer, found, _⟩ := inv.pending (d.held + 1) (by omega) (by omega)
    cases settled _ (List.mem_of_getElem? found)
  obtain ⟨latest, isLatest⟩ :=
    Option.isSome_iff_exists.mp (List.getLast?_isSome.mpr (inv.configured configured))
  rw [inv.enclave latest isLatest]
  refine inv.host latest ?_
  rw [caughtUp, asOf_length, isLatest]

end Deployment

open Deployment

/-- **Host and enclave agree.** A host and an enclave that is not yet configured are started
together. In every run in which the enclave attests the configurations it installs and no
answer takes the host back to an earlier one, the host's configuration equals the enclave's
whenever all requests have been answered, all answers processed, and the enclave
configured. -/
theorem configs_agree (p : Platform) (flags : HostFlags) (start : Int) (enclave : EnclaveServer)
    (unset : enclave.configSet = false) (ls : List DeploymentLabel) (d : Deployment)
    (run : Run (Deployment.step p flags) (Deployment.Orderly p)
      (Deployment.init (.newHostServer start) enclave) ls d)
    (settled : d.Settled) (configured : d.enclave.configSet = true) :
    d.host.config = d.enclave.config := by
  have inv : InSync d :=
    run.invariant (InSync.init unset) fun _ _ _ inv orderly taken => inv.step orderly taken
  exact inv.agree settled configured

/-- The attestor answers, and answers are processed in the order of their epochs. -/
def Deployment.prompt (d : Deployment) : DeploymentLabel → Bool
  | .serve _ _ attestor => attestor.toBool
  | .receive k _ =>
      match d.exchanges[k]? with
      | some (.answered _ epoch) => d.held ≤ epoch
      | _ => true
  | _ => true

theorem Deployment.orderly_of_prompt {p : Platform} {d : Deployment} {l : DeploymentLabel}
    (prompt : d.prompt l = true) : d.Orderly p l := by
  cases l with
  | serve k now attestor =>
      intro request found newConfig err applies failure
      rw [failure] at prompt
      cases prompt
  | receive k now =>
      intro answer epoch config found adopted changes
      unfold Deployment.prompt at prompt
      simp only [found, decide_eq_true_eq] at prompt
      exact prompt
  | _ => trivial

namespace Sample

/-- A host and an enclave, neither of them configured. -/
def deployment : Deployment :=
  .init (.newHostServer 0)
    (.newEnclaveServer .zero false false (.newBoxKeychain defaultKeypairExpiration) 0)

/-- A POST request sets `F = 0`, and a PATCH request with the one vote that this takes sets
`F = 1`. -/
def configuring : List DeploymentLabel :=
  [.forward (.config (.set .post (.config (config 0) ∅))), .serve 0 0 (.ok ∅),
    .forward (.config (.update (.config (config 1)
      (sign 1 (configUpdatePayload crypto ((config 1).hash crypto)))))), .serve 1 0 (.ok ∅)]

end Sample

open Sample

/-- The host processes the answer to the POST request last and is left with the old
configuration. -/
theorem configs_diverge :
    ∃ d, Run (Deployment.step platform flags) anyStep deployment
        (configuring ++ [.receive 1 0, .receive 0 0]) d ∧
      d.Settled ∧ d.enclave.configSet = true ∧ d.host.config = config 0 ∧
      d.enclave.config = config 1 ∧ config 0 ≠ config 1 :=
  Run.exists_of_exec (by decide +kernel)

/-- In the other order both end with the new configuration. -/
theorem configs_agree_in_order :
    ∃ d, Run (Deployment.step platform flags) (Deployment.Orderly platform) deployment
        (configuring ++ [.receive 0 0, .receive 1 0]) d ∧
      d.Settled ∧ d.enclave.configSet = true ∧ d.host.config = d.enclave.config := by
  have found : ∃ d, Run (Deployment.step platform flags) (fun d l => d.prompt l = true) deployment
      (configuring ++ [.receive 0 0, .receive 1 0]) d ∧
      d.Settled ∧ d.enclave.configSet = true :=
    Run.exists_of_exec (by decide +kernel)
  obtain ⟨d, prompt, settled, configured⟩ := found
  have run : Run (Deployment.step platform flags) (Deployment.Orderly platform) deployment
      (configuring ++ [.receive 0 0, .receive 1 0]) d :=
    prompt.mono fun _ _ => orderly_of_prompt
  exact ⟨d, run, settled, configured,
    configs_agree platform flags 0 _ rfl _ d run settled configured⟩

end ConfidentialCompute
