import ConfidentialCompute.Enclave.Server
import ConfidentialCompute.Host.Server
import ConfidentialCompute.Lib.SingleFlight
import ConfidentialCompute.Lib.TextCodec

/-!
# The public keys endpoint

`handleGetPublicKeys` and `attestPublicKeys` of `enclave/server/server.go`. An attestation is
costly, so a document is kept for a few seconds under the hash of what it attests, and requests
for the same content that overlap share one call of the attestor. The state holds what the
requests share: the configuration, the cache of documents, the group of flights, and the requests
themselves. Each access to shared state is a step, as are the answers of the keychain and of the
attestor, which may take any time and may be anything. The group of flights is third-party code and
a parameter.
-/

namespace ConfidentialCompute

open Go Runs SingleFlight

def publicKeyAttestationCacheTTL : Int := 5 * second

def statusNotFound : Nat := 404

/-! ## The request -/

/-- The request ID as older or newer clients write it. -/
def parseRequestID (param : GoString) : Option Bytes32 :=
  let ofBytes (bytes : Slice UInt8) : Option Bytes32 :=
    if len : bytes.data.length = 32 then some ⟨bytes.data, len⟩ else none
  match (Hex.decodeString param).toOption.bind ofBytes with
  | some requestID => some requestID
  | none => (Base64.decodeString param).toOption.bind ofBytes

/-- The response before it is attested. -/
def keysResponse (config : EnclaveConfig) (keypairs : Slice BoxKeypair) : PublicKeyResponse where
  publicKeys := keypairs.map fun kp => ⟨kp.publicKey.data, by rw [kp.publicKey.length_eq]; decide⟩
  creationTimes := keypairs.map (·.creationTime)
  ttls := keypairs.map (·.ttl)
  config := config
  attestation := ∅

inductive KeysReply where
  | ok (resp : PublicKeyResponse)
  | error (status : Nat) (message : String)
deriving DecidableEq

/-- The end of the handler. -/
def KeysReply.ofAttestation (resp : PublicKeyResponse) : AttestorReply → KeysReply
  | .ok att => .ok { resp with attestation := att }
  | .error err => .error statusInternalServerError s!"error creating attestation: {err}"

/-! ## Where a request is -/

/-- The access of `attestPublicKeys` that comes next. From `rechecking` to `landing` the request
leads a flight. `nsmCall` is not part of the program: it numbers the calls of the attestor. -/
inductive AttestPC where
  | lookup
  | entering
  | waiting (flight : Nat)
  | rechecking (flight : Nat)
  | creating (flight nsmCall : Nat)
  | storing (flight nsmCall : Nat) (att : Slice UInt8)
  | landing (flight : Nat) (result : AttestorReply)
deriving DecidableEq

inductive KeysPC where
  | reading (requestIDParam : GoString)
  /-- The keychain is asked for one keypair or for all. -/
  | listing (config : EnclaveConfig) (requestID : Option Bytes32)
  | attesting (resp : PublicKeyResponse) (dataToAttest : Bytes32) (pc : AttestPC)
  | answered (reply : KeysReply)
deriving DecidableEq

/-- A call of `CreateAttestation`: when it began, what it returned, and when the document was
stored. Nothing in the program keeps this. -/
structure NsmCall where
  hash : Bytes32
  begunAt : Int
  reply : Option AttestorReply
  storedAt : Option Int
deriving DecidableEq

/-- What the calls of `attestPublicKeys` share, next to the calls of the attestor so far. -/
structure Attestations (lib : Flights Bytes32 AttestorReply) where
  pubKeyAttestations : Cache Bytes32 (Slice UInt8)
  attestationGroup : lib.Group
  nsm : List NsmCall

variable {lib : Flights Bytes32 AttestorReply}

namespace Attestations

def begin_ (atts : Attestations lib) (now : Int) (hash : Bytes32) : Attestations lib :=
  { atts with nsm := atts.nsm ++ [⟨hash, now, none, none⟩] }

def reply (atts : Attestations lib) (nsmCall : Nat) (result : AttestorReply) : Attestations lib :=
  { atts with nsm := atts.nsm.modify nsmCall fun call => { call with reply := some result } }

def store (atts : Attestations lib) (now : Int) (hash : Bytes32) (nsmCall : Nat)
    (att : Slice UInt8) : Attestations lib :=
  { atts with
    pubKeyAttestations := atts.pubKeyAttestations.set now hash att none
    nsm := atts.nsm.modify nsmCall fun call => { call with storedAt := some now } }

end Attestations

/-- One access of `attestPublicKeys` to the cache or to the group. -/
def AttestPC.proceed (atts : Attestations lib) (now : Int) (resp : PublicKeyResponse)
    (dataToAttest : Bytes32) : AttestPC → Option (Attestations lib × KeysPC)
  | .lookup =>
      match atts.pubKeyAttestations.get now dataToAttest with
      | some att => some (atts, .answered (.ofAttestation resp (.ok att)))
      | none => some (atts, .attesting resp dataToAttest .entering)
  | .entering =>
      match lib.enter atts.attestationGroup dataToAttest with
      | (group, .leads flight) =>
          some ({ atts with attestationGroup := group },
            .attesting resp dataToAttest (.rechecking flight))
      | (_, .joins flight) => some (atts, .attesting resp dataToAttest (.waiting flight))
  | .waiting flight =>
      match lib.result atts.attestationGroup flight with
      | some result => some (atts, .answered (.ofAttestation resp result))
      | none => none
  | .rechecking flight =>
      match atts.pubKeyAttestations.get now dataToAttest with
      | some att => some (atts, .attesting resp dataToAttest (.landing flight (.ok att)))
      | none =>
          some (atts.begin_ now dataToAttest,
            .attesting resp dataToAttest (.creating flight atts.nsm.length))
  | .creating _ _ => none
  | .storing flight nsmCall att =>
      some (atts.store now dataToAttest nsmCall att,
        .attesting resp dataToAttest (.landing flight (.ok att)))
  | .landing flight result =>
      some ({ atts with
          attestationGroup := lib.land atts.attestationGroup dataToAttest flight result },
        .answered (.ofAttestation resp result))

/-- One access of a request to shared state. -/
def KeysPC.proceed (config : EnclaveConfig) (atts : Attestations lib) (now : Int) :
    KeysPC → Option (Attestations lib × KeysPC)
  | .reading requestIDParam =>
      if config.isZero then
        some (atts, .answered (.error statusServiceUnavailable "enclave config not set"))
      else if requestIDParam.data = [] then some (atts, .listing config none)
      else
        match parseRequestID requestIDParam with
        | none => some (atts, .answered (.error statusBadRequest
            "invalid requestID: must be 32 bytes hex-encoded or base64-encoded"))
        | some requestID => some (atts, .listing config (some requestID))
  | .listing _ _ => none
  | .attesting resp dataToAttest pc => pc.proceed atts now resp dataToAttest
  | .answered _ => none

/-- The keychain answers: `GetKeyPairForRequest` with one keypair, `GetKeyPairs` with any
number. -/
def KeysPC.receive (crypto : Crypto) (answer : Except String (Slice BoxKeypair)) :
    KeysPC → Option KeysPC
  | .listing config requestID =>
      match answer with
      | .error err =>
          match requestID with
          | some _ => some (.answered (.error statusInternalServerError
              s!"error retrieving keypair for request: {err}"))
          | none => some (.answered (.error statusInternalServerError
              s!"error retrieving keypairs: {err}"))
      | .ok keypairs =>
          if requestID.isSome ∧ keypairs.length ≠ 1 then none
          else if keypairs.length = 0 then
            some (.answered (.error statusNotFound "no keypairs found"))
          else
            let resp := keysResponse config keypairs
            some (.attesting resp (resp.publicKeyHash crypto) .lookup)
  | _ => none

/-- The attestor answers. -/
def KeysPC.attested (atts : Attestations lib) (result : AttestorReply) :
    KeysPC → Option (Attestations lib × KeysPC)
  | .attesting resp dataToAttest (.creating flight nsmCall) =>
      match result with
      | .ok att => some (atts.reply nsmCall result,
          .attesting resp dataToAttest (.storing flight nsmCall att))
      | .error _ => some (atts.reply nsmCall result,
          .attesting resp dataToAttest (.landing flight result))
  | _ => none

/-! ## Steps -/

structure KeysEndpoint (lib : Flights Bytes32 AttestorReply) where
  config : EnclaveConfig
  attestations : Attestations lib
  calls : List KeysPC
  clock : Int

inductive KeysAction where
  | arrive (method : HttpMethod) (requestIDParam : GoString)
  | proceed (id : Nat)
  | keypairs (id : Nat) (answer : Except String (Slice BoxKeypair))
  | attested (id : Nat) (result : AttestorReply)
  /-- One of the configuration handlers runs, under the lock. -/
  | setConfig (config : EnclaveConfig)
  | collect

/-- A step and the reading of the clock it makes. -/
structure KeysLabel where
  now : Int
  action : KeysAction

namespace KeysEndpoint

def init (lib : Flights Bytes32 AttestorReply) (config : EnclaveConfig) (start : Int) :
    KeysEndpoint lib where
  config := config
  attestations := ⟨.newCache publicKeyAttestationCacheTTL, lib.empty, []⟩
  calls := []
  clock := start

/-- A request as it is first seen. -/
def arrival (method : HttpMethod) (requestIDParam : GoString) : KeysPC :=
  if method ≠ .get then
    let name := method.name
    .answered (.error statusMethodNotAllowed s!"method not allowed: {name}")
  else .reading requestIDParam

def act (crypto : Crypto) (s : KeysEndpoint lib) (now : Int) :
    KeysAction → Option (KeysEndpoint lib)
  | .arrive method requestIDParam =>
      some { s with calls := s.calls ++ [arrival method requestIDParam] }
  | .proceed id => do
      let pc ← s.calls[id]?
      let (atts, pc) ← pc.proceed s.config s.attestations now
      return { s with attestations := atts, calls := s.calls.set id pc }
  | .keypairs id answer => do
      let pc ← s.calls[id]?
      let pc ← pc.receive crypto answer
      return { s with calls := s.calls.set id pc }
  | .attested id result => do
      let pc ← s.calls[id]?
      let (atts, pc) ← pc.attested s.attestations result
      return { s with attestations := atts, calls := s.calls.set id pc }
  | .setConfig config => some { s with config := config }
  | .collect =>
      some { s with attestations := { s.attestations with
        pubKeyAttestations := (s.attestations.pubKeyAttestations.garbageCollect now).1 } }

/-- The clock never goes back. -/
def step (crypto : Crypto) (s : KeysEndpoint lib) (l : KeysLabel) : Option (KeysEndpoint lib) :=
  if s.clock ≤ l.now then { s with clock := l.now }.act crypto l.now l.action else none

end KeysEndpoint

/-! ## What a step does -/

/-- A request moves on by an action, at the clock reading `now`. -/
inductive KeysPC.Moves (crypto : Crypto) (config : EnclaveConfig) (now : Int) (id : Nat)
    (atts : Attestations lib) : KeysAction → KeysPC → Attestations lib → KeysPC → Prop
  | refused {param : GoString} {status : Nat} {message : String} :
    Moves crypto config now id atts (.proceed id) (.reading param) atts
      (.answered (.error status message))
  | read {param : GoString} {requestID : Option Bytes32} : config.isZero = false →
    Moves crypto config now id atts (.proceed id) (.reading param) atts (.listing config requestID)
  | noKeys {snapshot : EnclaveConfig} {requestID : Option Bytes32}
      {answer : Except String (Slice BoxKeypair)} {status : Nat} {message : String} :
    Moves crypto config now id atts (.keypairs id answer) (.listing snapshot requestID) atts
      (.answered (.error status message))
  | listed {snapshot : EnclaveConfig} {requestID : Option Bytes32} {keypairs : Slice BoxKeypair} :
    Moves crypto config now id atts (.keypairs id (.ok keypairs)) (.listing snapshot requestID) atts
      (.attesting (keysResponse snapshot keypairs)
        ((keysResponse snapshot keypairs).publicKeyHash crypto) .lookup)
  | hit {resp : PublicKeyResponse} {hash : Bytes32} {att : Slice UInt8} :
    atts.pubKeyAttestations.get now hash = some att →
    Moves crypto config now id atts (.proceed id) (.attesting resp hash .lookup) atts
      (.answered (.ofAttestation resp (.ok att)))
  | missed {resp : PublicKeyResponse} {hash : Bytes32} :
    Moves crypto config now id atts (.proceed id) (.attesting resp hash .lookup) atts
      (.attesting resp hash .entering)
  | leads {resp : PublicKeyResponse} {hash : Bytes32} {flight : Nat} :
    lib.Starts atts.attestationGroup hash flight →
    Moves crypto config now id atts (.proceed id) (.attesting resp hash .entering)
      { atts with attestationGroup := (lib.enter atts.attestationGroup hash).1 }
      (.attesting resp hash (.rechecking flight))
  | joins {resp : PublicKeyResponse} {hash : Bytes32} {flight : Nat} :
    lib.current atts.attestationGroup hash = some flight →
    Moves crypto config now id atts (.proceed id) (.attesting resp hash .entering) atts
      (.attesting resp hash (.waiting flight))
  | woken {resp : PublicKeyResponse} {hash : Bytes32} {flight : Nat} {result : AttestorReply} :
    lib.result atts.attestationGroup flight = some result →
    Moves crypto config now id atts (.proceed id) (.attesting resp hash (.waiting flight)) atts
      (.answered (.ofAttestation resp result))
  | found {resp : PublicKeyResponse} {hash : Bytes32} {flight : Nat} {att : Slice UInt8} :
    atts.pubKeyAttestations.get now hash = some att →
    Moves crypto config now id atts (.proceed id) (.attesting resp hash (.rechecking flight)) atts
      (.attesting resp hash (.landing flight (.ok att)))
  | begins {resp : PublicKeyResponse} {hash : Bytes32} {flight : Nat} :
    atts.pubKeyAttestations.get now hash = none →
    Moves crypto config now id atts (.proceed id) (.attesting resp hash (.rechecking flight))
      (atts.begin_ now hash) (.attesting resp hash (.creating flight atts.nsm.length))
  | created {resp : PublicKeyResponse} {hash : Bytes32} {flight nsmCall : Nat}
      {att : Slice UInt8} :
    Moves crypto config now id atts (.attested id (.ok att))
      (.attesting resp hash (.creating flight nsmCall)) (atts.reply nsmCall (.ok att))
      (.attesting resp hash (.storing flight nsmCall att))
  | failed {resp : PublicKeyResponse} {hash : Bytes32} {flight nsmCall : Nat} {err : String} :
    Moves crypto config now id atts (.attested id (.error err))
      (.attesting resp hash (.creating flight nsmCall)) (atts.reply nsmCall (.error err))
      (.attesting resp hash (.landing flight (.error err)))
  | stores {resp : PublicKeyResponse} {hash : Bytes32} {flight nsmCall : Nat} {att : Slice UInt8} :
    Moves crypto config now id atts (.proceed id)
      (.attesting resp hash (.storing flight nsmCall att)) (atts.store now hash nsmCall att)
      (.attesting resp hash (.landing flight (.ok att)))
  | lands {resp : PublicKeyResponse} {hash : Bytes32} {flight : Nat} {result : AttestorReply} :
    Moves crypto config now id atts (.proceed id) (.attesting resp hash (.landing flight result))
      { atts with attestationGroup := lib.land atts.attestationGroup hash flight result }
      (.answered (.ofAttestation resp result))

namespace KeysPC

variable {crypto : Crypto} {config : EnclaveConfig} {now : Int} {id : Nat}
  {atts atts' : Attestations lib} {pc pc' : KeysPC}

theorem Moves.of_attest (lawful : lib.Lawful) {resp : PublicKeyResponse} {hash : Bytes32}
    {at_ : AttestPC} (taken : at_.proceed atts now resp hash = some (atts', pc')) :
    Moves crypto config now id atts (.proceed id) (.attesting resp hash at_) atts' pc' := by
  cases at_ with
  | lookup =>
      simp only [AttestPC.proceed] at taken
      split at taken
      · rename_i att found
        cases taken
        exact .hit found
      · cases taken
        exact .missed
  | entering =>
      simp only [AttestPC.proceed] at taken
      cases current : lib.current atts.attestationGroup hash with
      | none =>
          obtain ⟨flight, starts⟩ := lawful.leads _ hash current
          have isLead : lib.enter atts.attestationGroup hash =
              ((lib.enter atts.attestationGroup hash).1, .leads flight) :=
            Prod.ext rfl starts.ticket
          rw [isLead] at taken
          cases taken
          exact .leads starts
      | some flight =>
          rw [lawful.joins _ hash flight current] at taken
          cases taken
          exact .joins current
  | waiting flight =>
      simp only [AttestPC.proceed] at taken
      split at taken
      · rename_i result landed
        cases taken
        exact .woken landed
      · cases taken
  | rechecking flight =>
      simp only [AttestPC.proceed] at taken
      split at taken
      · rename_i att found
        cases taken
        exact .found found
      · rename_i missing
        cases taken
        exact .begins missing
  | creating flight nsmCall => cases taken
  | storing flight nsmCall att =>
      cases taken
      exact .stores
  | landing flight result =>
      cases taken
      exact .lands

theorem Moves.of_proceed (lawful : lib.Lawful)
    (taken : pc.proceed config atts now = some (atts', pc')) :
    Moves crypto config now id atts (.proceed id) pc atts' pc' := by
  cases pc with
  | reading param =>
      simp only [proceed] at taken
      split at taken
      · cases taken
        exact .refused
      · rename_i set
        have set := Bool.eq_false_iff.mpr set
        split at taken
        · cases taken
          exact .read set
        · split at taken
          · cases taken
            exact .refused
          · cases taken
            exact .read set
  | listing snapshot requestID => cases taken
  | attesting resp hash at_ => exact .of_attest lawful taken
  | answered reply => cases taken

theorem Moves.of_receive {answer : Except String (Slice BoxKeypair)}
    (taken : pc.receive crypto answer = some pc') :
    Moves crypto config now id atts (.keypairs id answer) pc atts pc' := by
  cases pc with
  | listing snapshot requestID =>
      simp only [receive] at taken
      cases answer with
      | error err =>
          cases requestID <;> cases taken <;> exact .noKeys
      | ok keypairs =>
          dsimp only at taken
          split at taken
          · cases taken
          · split at taken
            · cases taken
              exact .noKeys
            · cases taken
              exact .listed
  | reading param => cases taken
  | attesting resp hash at_ => cases taken
  | answered reply => cases taken

theorem Moves.of_attested {result : AttestorReply}
    (taken : pc.attested atts result = some (atts', pc')) :
    Moves crypto config now id atts (.attested id result) pc atts' pc' := by
  unfold attested at taken
  split at taken
  · split at taken
    · cases taken
      exact .created
    · cases taken
      exact .failed
  · cases taken

end KeysPC

namespace KeysEndpoint

variable {crypto : Crypto} {s s' : KeysEndpoint lib} {l : KeysLabel}

/-- Everything a step can do to the requests and to what they share. -/
inductive Advances (crypto : Crypto) (s : KeysEndpoint lib) (now : Int) :
    KeysAction → KeysEndpoint lib → Prop
  | arrives {pc : KeysPC} (method : HttpMethod) (param : GoString) : pc = arrival method param →
    Advances crypto s now (.arrive method param) { s with clock := now, calls := s.calls ++ [pc] }
  | moves {id : Nat} {action : KeysAction} {pc pc' : KeysPC} {atts : Attestations lib} :
    s.calls[id]? = some pc → pc.Moves crypto s.config now id s.attestations action atts pc' →
    Advances crypto s now action
      { s with clock := now, attestations := atts, calls := s.calls.set id pc' }
  | configured {config : EnclaveConfig} :
    Advances crypto s now (.setConfig config) { s with clock := now, config := config }
  | collected : Advances crypto s now .collect { s with
      clock := now
      attestations := { s.attestations with
        pubKeyAttestations := (s.attestations.pubKeyAttestations.garbageCollect now).1 } }

theorem advances_of_step (lawful : lib.Lawful) (taken : step crypto s l = some s') :
    s.clock ≤ l.now ∧ Advances crypto s l.now l.action s' := by
  unfold step at taken
  split at taken
  · rename_i forward
    refine ⟨forward, ?_⟩
    rcases l with ⟨now, action⟩
    cases action with
    | arrive method param =>
        cases taken
        exact .arrives method param rfl
    | proceed id =>
        obtain ⟨pc, isPc, taken⟩ := Option.bind_eq_some_iff.mp taken
        obtain ⟨⟨atts, pc'⟩, proceeds, taken⟩ := Option.bind_eq_some_iff.mp taken
        cases taken
        exact .moves isPc (.of_proceed lawful proceeds)
    | keypairs id answer =>
        obtain ⟨pc, isPc, taken⟩ := Option.bind_eq_some_iff.mp taken
        obtain ⟨pc', receives, taken⟩ := Option.bind_eq_some_iff.mp taken
        cases taken
        exact .moves isPc (.of_receive receives)
    | attested id result =>
        obtain ⟨pc, isPc, taken⟩ := Option.bind_eq_some_iff.mp taken
        obtain ⟨⟨atts, pc'⟩, receives, taken⟩ := Option.bind_eq_some_iff.mp taken
        cases taken
        exact .moves isPc (.of_attested receives)
    | setConfig config =>
        cases taken
        exact .configured
    | collect =>
        cases taken
        exact .collected
  · cases taken

end KeysEndpoint

end ConfidentialCompute
