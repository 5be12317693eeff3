import ConfidentialCompute.Enclave.Execute
import ConfidentialCompute.Lib.Runs

/-!
# The enclave server as a transition system

`enclave/server/server.go`. The state is the server's fields, its keychain, the
`handleExecute` goroutines in flight and the log of what the attestor has attested. A
label is a clock reading and what happens at it:

* a `/config` request runs as one step, since both handlers hold `configLock` throughout;
* a `/requests` goroutine takes one step for each access to shared state: the
  configuration snapshot, the four sections under `reqsLock`, the keypair lookup, the
  return of `app.Execute`, the attestation and the deferred deletion;
* a keypair is generated, a cache is garbage-collected, or another part of the enclave
  has something attested.

Steps of different goroutines interleave freely, and any time may pass between two steps.
-/

namespace ConfidentialCompute

open Go Runs

/-- The result of `CreateAttestation`. -/
abbrev AttestorReply := Except String (Slice UInt8)

/-! ## State -/

/-- Where a `handleExecute` goroutine stands: the access to shared state it makes next.
From `checkExecuted` on its hash is marked as in progress, and `unmark` is the deferred
deletion of that mark, after the reply has been written. -/
inductive ExecPC where
  | checkInProgress
  | markInProgress
  | checkExecuted
  | getKeyPair
  | combineShares (kp : BoxKeypair)
  | running (secrets : Secrets)
  | attesting (output : Slice UInt8)
  | markExecuted (resp : ExecuteResponse)
  | unmark (reply : ExecuteReply)
  | done (reply : ExecuteReply)

/-- A goroutine: its configuration snapshot, its batch, which is not empty, the batch's
hash, where it stands, and what `app.Execute` has returned to it. -/
structure ExecCall where
  config : EnclaveConfig
  req : SignedComputeRequest
  rest : List SignedComputeRequest
  hash : Bytes32
  pc : ExecPC
  output : Option (Slice UInt8)

def ExecCall.reqs (call : ExecCall) : List SignedComputeRequest := call.req :: call.rest

/-- The contents the enclave's code has attested. -/
inductive Attested where
  | execute (resp : ExecuteResponse) (version : GoString)
  | publicKeys (resp : PublicKeyResponse)
  | setConfig (config : EnclaveConfig)
  | gateway (body : Bytes)
  | relay (domainTag data : Bytes)
deriving DecidableEq

/-- The stream whose hash is the attested user data. -/
def Attested.preimage (p : Platform) : Attested → Bytes
  | .execute resp version => resp.userDataPreimage p.toCrypto version
  | .publicKeys resp => resp.preimage p.toCrypto
  | .setConfig config => setConfigPreimage p.toCrypto config
  | .gateway body => gatewayRequestPreimage body
  | .relay domainTag data => p.domainHashPreimage domainTag data

def Attested.userData (p : Platform) (a : Attested) : Bytes := (p.sha256 (a.preimage p)).data

structure EnclaveServer where
  config : EnclaveConfig
  configSet : Bool
  allowReconfig : Bool
  /-- Signer-key hashes that have voted, by the hash of the proposed configuration. -/
  pendingConfigVotes : Cache Bytes32 (Finset Bytes32)
  /-- Whether the app implements `OnConfigUpdate`, and what it was last called with. -/
  appConfigurable : Bool
  appConfig : Option EnclaveConfig
  inProgressReqs : Cache Bytes32 Unit
  executedReqs : Cache Bytes32 Unit
  keychain : BoxKeychain
  calls : GoMap Nat ExecCall
  attested : List Attested
  clock : Int

namespace EnclaveServer

def newEnclaveServer (config : EnclaveConfig) (allowReconfig appConfigurable : Bool)
    (keychain : BoxKeychain) (start : Int) : EnclaveServer where
  config := config
  configSet := false
  allowReconfig := allowReconfig
  pendingConfigVotes := Cache.newCache configVoteTTL
  appConfigurable := appConfigurable
  appConfig := none
  inProgressReqs := Cache.newBoundedCache defaultKeypairExpiration maxReplayCacheEntries
  executedReqs := Cache.newBoundedCache defaultKeypairExpiration maxReplayCacheEntries
  keychain := keychain
  calls := ∅
  attested := []
  clock := start

/-- `app.OnConfigUpdate(newConfig)`, where the app has it. -/
def notifyApp (s : EnclaveServer) (newConfig : EnclaveConfig) : EnclaveServer :=
  if s.appConfigurable then { s with appConfig := some newConfig } else s

/-- The attestor has produced a document over `a`. -/
def attest (s : EnclaveServer) (a : Attested) : EnclaveServer :=
  { s with attested := s.attested ++ [a] }

end EnclaveServer

/-! ## The configuration endpoint -/

/-- A `/config` body as far as the handlers can read it. -/
inductive ConfigBody where
  | unreadable (err : String)
  | malformed (err : String)
  | malformedConfig (err : String)
  | config (newConfig : EnclaveConfig) (signature : Slice UInt8)

inductive ConfigReply where
  | error (status : Nat) (message : String)
  | set (resp : SetConfigResponse)
  | update (status : Nat) (resp : UpdateConfigResponse)
  | aborted

namespace EnclaveServer

/-- POST `/config`. The signature of the body is not looked at. -/
def handleSetConfig (s : EnclaveServer) (method : HttpMethod) (body : ConfigBody)
    (attestor : AttestorReply) : EnclaveServer × ConfigReply :=
  if method ≠ .post then
    let name := method.name
    (s, .error statusMethodNotAllowed s!"method not allowed: {name}")
  else if s.configSet ∧ ¬ s.allowReconfig then
    (s, .error statusConflict "config has already been set and cannot be changed")
  else
    match body with
    | .unreadable err => (s, .error statusBadRequest s!"failed to read request body: {err}")
    | .malformed err => (s, .error statusBadRequest s!"failed to parse config request: {err}")
    | .malformedConfig err => (s, .error statusBadRequest s!"failed to parse new config: {err}")
    | .config newConfig _ =>
        let s := { s with config := newConfig, configSet := true }.notifyApp newConfig
        match attestor with
        | .error err =>
            (s, .error statusInternalServerError s!"error creating attestation: {err}")
        | .ok att => (s.attest (.setConfig newConfig), .set ⟨newConfig, att⟩)

/-- The votes for `newHash` with that of `signer` added. -/
def votesWith (crypto : Crypto) (s : EnclaveServer) (now : Int) (newHash : Bytes32)
    (signer : Slice UInt8) : Finset Bytes32 :=
  insert (crypto.sha256 signer.data) ((s.pendingConfigVotes.get now newHash).getD ∅)

/-- The vote is kept under the proposed configuration's hash. Storing it renews the
creation time of the whole entry. -/
def recordVote (crypto : Crypto) (s : EnclaveServer) (now : Int) (newHash : Bytes32)
    (signer : Slice UInt8) : EnclaveServer :=
  { s with
    pendingConfigVotes :=
      s.pendingConfigVotes.set now newHash (s.votesWith crypto now newHash signer) none }

/-- Quorum reached: the new configuration is in force and all votes are dropped. -/
def applyConfig (s : EnclaveServer) (newConfig : EnclaveConfig) : EnclaveServer :=
  { s with
    config := newConfig
    pendingConfigVotes := s.pendingConfigVotes.flush }.notifyApp newConfig

/-- PATCH `/config`. -/
def handleUpdateConfig (crypto : Crypto) (s : EnclaveServer) (now : Int) (body : ConfigBody)
    (attestor : AttestorReply) : EnclaveServer × ConfigReply :=
  if ¬ s.configSet then
    (s, .error statusConflict "config has not been initialized, cannot update")
  else
    match body with
    | .unreadable err => (s, .error statusBadRequest s!"failed to read request body: {err}")
    | .malformed err =>
        (s, .error statusBadRequest s!"failed to parse config update request: {err}")
    | .malformedConfig err =>
        (s, .error statusBadRequest s!"failed to parse proposed config: {err}")
    | .config newConfig signature =>
        let newHash := newConfig.hash crypto
        match verifySignature crypto (configUpdatePayload crypto newHash) signature
            s.config.signers with
        | .panicked => (s, .aborted)
        | .err e =>
            let reason := e.message
            (s, .error statusBadRequest
              s!"config update signature verification failed: {reason}")
        | .ok signer =>
            let required := s.config.f.toNat + 1
            if newHash = s.config.hash crypto then
              match attestor with
              | .error err =>
                  (s, .error statusInternalServerError s!"error creating attestation: {err}")
              | .ok att =>
                  (s.attest (.setConfig s.config),
                    .update statusOK ⟨true, s.config, required, required, some att⟩)
            else
              let votes := s.votesWith crypto now newHash signer
              let s := s.recordVote crypto now newHash signer
              if votes.card < required then
                (s, .update statusAccepted ⟨false, newConfig, votes.card, required, none⟩)
              else
                let s := s.applyConfig newConfig
                match attestor with
                | .error err =>
                    (s, .error statusInternalServerError s!"error creating attestation: {err}")
                | .ok att =>
                    (s.attest (.setConfig newConfig),
                      .update statusOK ⟨true, newConfig, votes.card, required, some att⟩)

end EnclaveServer

/-! ## The execution endpoint -/

/-- A `/requests` body as far as the handler can read it. -/
inductive RequestBody where
  | unreadable
  | invalidJson
  | batch (reqs : List SignedComputeRequest)

/-- What the environment decides when a goroutine takes its next step. -/
inductive CallInput where
  | proceed
  /-- `app.Execute` returns, or panics. -/
  | appReturns (result : Outcome ExecuteError (Slice UInt8))
  /-- The attestor answers; then the response is marshalled, which may fail. -/
  | attestorAnswers (reply : AttestorReply) (marshalError : Option String)

namespace EnclaveServer

def setCall (s : EnclaveServer) (id : Nat) (call : ExecCall) : EnclaveServer :=
  { s with calls := s.calls.insert id call }

/-- Snapshot of the configuration, then the checks on the batch. A request that fails
them is answered at once and leaves nothing behind. -/
def arrive (crypto : Crypto) (s : EnclaveServer) (id : Nat) (method : HttpMethod)
    (body : RequestBody) : EnclaveServer × Option ExecuteReply :=
  if method ≠ .post then
    (s, some (.error statusMethodNotAllowed "method not allowed"))
  else
    match body with
    | .unreadable => (s, some (.error statusBadRequest "failed to read request body"))
    | .invalidJson => (s, some (.error statusBadRequest "invalid json"))
    | .batch [] => (s, some (.error statusBadRequest "empty request batch"))
    | .batch (req :: rest) =>
        match admitBatch crypto s.config req rest with
        | .panicked => (s, some .aborted)
        | .err reply => (s, some reply)
        | .ok hash =>
            (s.setCall id ⟨s.config, req, rest, hash, .checkInProgress, none⟩, none)

/-- The response to a batch whose app returned `output`, before its attestation. -/
def responseTo (call : ExecCall) (output : Slice UInt8) : ExecuteResponse where
  requestID := call.req.requestID
  applicationRequestID := call.req.applicationRequestID
  requestHash := call.hash
  output := output
  config := call.config
  attestation := ∅

/-- The keypair lookup, after the checks on the first request. -/
def lookupKeyPair (s : EnclaveServer) (now : Int) (call : ExecCall) : ExecPC :=
  match checkFields call.req.toComputeRequest with
  | some reply => .unmark reply
  | none =>
      match s.keychain.getKeyPair now call.req.enclaveEphemeralPublicKey with
      | .error e =>
          let reason := e.message
          .unmark (.error statusBadRequest
            s!"failed to retrieve keypair for request: {reason}")
      | .ok kp => .combineShares kp

def combine (p : Platform) (now : Int) (call : ExecCall) (kp : BoxKeypair) : ExecPC :=
  match recoverSecrets p kp now call.req.toComputeRequest
      (effectiveMasterPublicKey call.config call.req.toComputeRequest) call.config.t.toNat 0
      call.reqs none with
  | .panicked => .unmark .aborted
  | .err lastErr =>
      .unmark (.error statusInternalServerError
        s!"no node's shares produced valid decryption: {lastErr}")
  | .ok secrets => .running secrets

/-- One step of a goroutine. -/
def callStep (p : Platform) (s : EnclaveServer) (now : Int) (id : Nat) (call : ExecCall)
    (input : CallInput) : Option EnclaveServer :=
  match call.pc, input with
  | .checkInProgress, .proceed =>
      if (s.inProgressReqs.get now call.hash).isSome then
        some (s.setCall id { call with
          pc := .done (.error statusConflict "request is already being processed") })
      else
        some (s.setCall id { call with pc := .markInProgress })
  | .markInProgress, .proceed =>
      some ({ s with inProgressReqs := s.inProgressReqs.set now call.hash () none }.setCall id
        { call with pc := .checkExecuted })
  | .checkExecuted, .proceed =>
      if (s.executedReqs.get now call.hash).isSome then
        some (s.setCall id { call with
          pc := .unmark (.error statusConflict
            "replay detected: request hash has already been executed") })
      else
        some (s.setCall id { call with pc := .getKeyPair })
  | .getKeyPair, .proceed => some (s.setCall id { call with pc := s.lookupKeyPair now call })
  | .combineShares kp, .proceed =>
      some (s.setCall id { call with pc := combine p now call kp })
  | .running _, .appReturns .panicked =>
      some (s.setCall id { call with pc := .unmark .aborted })
  | .running _, .appReturns (.err e) =>
      let text := e.error
      let code := e.code
      some (s.setCall id { call with
        pc := .unmark (.error statusInternalServerError
          s!"error executing enclave app request: &\x7b{text} {code}\x7d") })
  | .running _, .appReturns (.ok output) =>
      some (s.setCall id { call with pc := .attesting output, output := some output })
  | .attesting _, .attestorAnswers (.error err) _ =>
      some (s.setCall id { call with
        pc := .unmark (.error statusInternalServerError
          s!"error creating attestation: {err}") })
  | .attesting output, .attestorAnswers (.ok att) marshalError =>
      let resp := responseTo call output
      let s := s.attest (.execute resp call.req.version)
      match marshalError with
      | none =>
          some (s.setCall id { call with pc := .markExecuted { resp with attestation := att } })
      | some err =>
          some (s.setCall id { call with
            pc := .unmark (.error statusInternalServerError s!"error encoding response: {err}") })
  | .markExecuted resp, .proceed =>
      some ({ s with executedReqs := s.executedReqs.set now call.hash () none }.setCall id
        { call with pc := .unmark (.success resp) })
  | .unmark reply, .proceed =>
      some ({ s with inProgressReqs := s.inProgressReqs.delete call.hash }.setCall id
        { call with pc := .done reply })
  | _, _ => none

end EnclaveServer

/-! ## Steps -/

inductive EnclaveAction where
  | setConfig (method : HttpMethod) (body : ConfigBody) (attestor : AttestorReply)
  | updateConfig (body : ConfigBody) (attestor : AttestorReply)
  | arrive (id : Nat) (method : HttpMethod) (body : RequestBody)
  | call (id : Nat) (input : CallInput)
  | createKeyPair (generatedAt : Int) (publicKey privateKey : Bytes32)
  | collectVotes
  | collectInProgress
  | collectExecuted
  | collectKeypairs
  /-- `attestPublicKeys`, whatever keypairs and snapshot it is over. -/
  | attestPublicKeys (resp : PublicKeyResponse)
  | attestGateway (body : Bytes)
  | attestRelay (domainTag data : Bytes)

structure EnclaveLabel where
  now : Int
  action : EnclaveAction

namespace EnclaveServer

def act (p : Platform) (s : EnclaveServer) (now : Int) : EnclaveAction → Option EnclaveServer
  | .setConfig method body attestor => some (s.handleSetConfig method body attestor).1
  | .updateConfig body attestor => some (handleUpdateConfig p.toCrypto s now body attestor).1
  | .arrive id method body =>
      match s.calls.lookup id with
      | some _ => none
      | none => some (s.arrive p.toCrypto id method body).1
  | .call id input =>
      match s.calls.lookup id with
      | none => none
      | some call => s.callStep p now id call input
  | .createKeyPair generatedAt publicKey privateKey =>
      if generatedAt ≤ now then
        some { s with
          keychain := s.keychain.createKeyPair generatedAt now publicKey privateKey }
      else none
  | .collectVotes =>
      some { s with pendingConfigVotes := (s.pendingConfigVotes.garbageCollect now).1 }
  | .collectInProgress =>
      some { s with inProgressReqs := (s.inProgressReqs.garbageCollect now).1 }
  | .collectExecuted =>
      some { s with executedReqs := (s.executedReqs.garbageCollect now).1 }
  | .collectKeypairs =>
      some { s with keychain := { s.keychain with
        keypairCache := (s.keychain.keypairCache.garbageCollect now).1 } }
  | .attestPublicKeys resp => some (s.attest (.publicKeys resp))
  | .attestGateway body => some (s.attest (.gateway body))
  | .attestRelay domainTag data => some (s.attest (.relay domainTag data))

/-- The clock never goes back. -/
def step (p : Platform) (s : EnclaveServer) (l : EnclaveLabel) : Option EnclaveServer :=
  if s.clock ≤ l.now then { s with clock := l.now }.act p l.now l.action else none

end EnclaveServer

end ConfidentialCompute
