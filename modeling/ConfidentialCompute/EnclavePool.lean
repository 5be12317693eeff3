import ConfidentialCompute.Cache
import ConfidentialCompute.Client
import ConfidentialCompute.Lib.Runs

/-!
# The enclave pool

`GetPublicKeys`, `UpdateNodes` and the background refresh of the enclave client's pool. The node
list stands under a lock, which `UpdateNodes` holds from writing the list to the end of the call;
the cache of public keys and the selector's set of dead enclaves have locks of their own. Each
access to one of them is a step, and so is each reply from a node.

A fetch is a goroutine that runs `getSingleEnclavePublicKey` and then uses what it returned. Its
retries are part of the reply: `failed` stands for the joined errors of all attempts, and for a
request that could not be built or had no time left. The map `lastRefresh` and the sessions are
not read here and are left out. Passes of the refresh loop follow one another in the code; here
they may overlap.
-/

namespace ConfidentialCompute

open Go

/-! ## Fetching the keys of one enclave -/

/-- The constant with the given text. -/
def EnclaveType.ofText (text : GoString) : EnclaveType :=
  if text.data = ascii "NITRO" then .nitro
  else if text.data = ascii "SGX" then .sgx
  else if text.data = ascii "TDX" then .tdx
  else if text.data = ascii "SEV" then .sev
  else if text.data = ascii "FAKE" then .fake
  else .other (String.ofList (text.data.map fun b => Char.ofNat b.toNat))

/-- An entry of the node list, with all its fields. -/
abbrev PoolNode := EnclavesList.Enclave

/-- What the attestation check reads of an entry. -/
def attestedFields (node : PoolNode) : Enclave :=
  ⟨node.enclaveID, node.trustedValues, .ofText node.enclaveType⟩

structure EnclavePublicKeyData extends PublicKeyResponse where
  enclaveID : Bytes32
deriving DecidableEq

/-- What the exchange with a node ends in. -/
inductive KeyReply where
  | failed (err : String)
  | tooLarge
  | status (body : String)
  | invalidJson (err : String)
  | response (out : PublicKeyResponse)

def getSingleEnclavePublicKey (crypto : Crypto) (svc : AttestationServices) (enclave : PoolNode) :
    KeyReply → Except String EnclavePublicKeyData
  | .failed err => .error err
  | .tooLarge =>
      .error s!"publicKeys response body exceeds limit {maxEnclaveResponseBodyBytes} bytes"
  | .status body =>
      let id := hexString enclave.enclaveID.data
      .error s!"request failed for enclave {id}: {body}"
  | .invalidJson err => .error err
  | .response out =>
      if out.config.isZero then
        let id := hexString enclave.enclaveID.data
        let t := out.config.t.toNat
        let f := out.config.f.toNat
        .error s!"enclave {id} returned unconfigured public keys (t={t} f={f})"
      else
        match validateAttestation svc (attestedFields enclave) (out.publicKeyHash crypto).data
            out.attestation with
        | .error err =>
            .error s!"attestation validation failed for getSingleEnclavePublicKey: {err}"
        | .ok _ => .ok { out with enclaveID := enclave.enclaveID }

/-! ## The cache of public keys -/

/-- `ttlBuffer` is the product with `TTLBufferPercent`, computed in `float64`. -/
structure CacheConfig where
  maxTTL : Int
  defaultTTL : Int
  enableCache : Bool
  ttlBuffer : Int → Int
  enableProactiveRefresh : Bool

structure CachedPublicKeyData where
  data : EnclavePublicKeyData
  originalTTLs : Slice Int
  cachedAt : Int
deriving DecidableEq

def calculateEffectiveTTL (config : CacheConfig) (enclaveTTLs : Slice Int) : Int :=
  let minTTL :=
    match enclaveTTLs.data with
    | [] => config.defaultTTL
    | ttl :: ttls => min (ttls.foldl min ttl) config.maxTTL
  let bufferTime := max (config.ttlBuffer minTTL) second
  -- The difference is an `int64`.
  (minTTL - bufferTime).bmod (2 ^ 64)

abbrev PublicKeyCache := Cache Bytes32 CachedPublicKeyData

def getCachedPublicKey (config : CacheConfig) (cache : PublicKeyCache) (now : Int)
    (enclaveID : Bytes32) : Option EnclavePublicKeyData :=
  if config.enableCache then (cache.get now enclaveID).map (·.data) else none

def setCachedPublicKey (config : CacheConfig) (cache : PublicKeyCache) (now : Int)
    (enclaveID : Bytes32) (data : EnclavePublicKeyData) : PublicKeyCache :=
  if config.enableCache = true ∧ 0 < calculateEffectiveTTL config data.ttls then
    cache.set now enclaveID ⟨data, data.ttls, now⟩ (some (calculateEffectiveTTL config data.ttls))
  else cache

/-! ## Goroutines -/

/-- The call or refresh pass that waits for a fetch. -/
inductive FetchOwner where
  | call (c : Nat)
  | refresh
  | update (u : Nat)
deriving DecidableEq

/-- Where a fetch is. -/
inductive KeyFetchPC where
  | fetching
  | fetched (result : Except String EnclavePublicKeyData)
  /-- The key has been refreshed and the enclave is to be marked as alive. -/
  | marking
  | finished
deriving DecidableEq

structure KeyFetch where
  owner : FetchOwner
  enclave : PoolNode
  publicKeyData : Option EnclavePublicKeyData
  pc : KeyFetchPC
deriving DecidableEq

def KeyFetch.start (owner : FetchOwner) (enclave : PoolNode) : KeyFetch :=
  ⟨owner, enclave, none, .fetching⟩

/-- A nil checker accepts every enclave. -/
abbrev RequirementsChecker := Option (PoolNode → Bool)

inductive KeyCallPC where
  | reading
  /-- The selector looks at these enclaves one after the other. -/
  | selecting (todo : List PoolNode)
  | waiting
  | returned (result : Except String (List EnclavePublicKeyData))
deriving DecidableEq

/-- A call of `GetPublicKeys`; `err` is the error of the goroutine that failed first. -/
structure KeyCall where
  requestID : Bytes32
  checkRequirements : RequirementsChecker
  responses : List EnclavePublicKeyData
  err : Option String
  pc : KeyCallPC

inductive NodeUpdatePC where
  | comparing
  | validating
  /-- The list has been written and the lock is held. -/
  | flushing
  | returned (result : Except String Unit)

/-- A call of `UpdateNodes`. -/
structure NodeUpdate where
  nodes : Slice PoolNode
  err : Option String
  pc : NodeUpdatePC

/-! ## The selector -/

def calcMod (b : Bytes32) (modulus : Nat) : Nat :=
  b.data.foldl (fun n x => n * 256 + x.toNat) 0 % modulus

/-- The enclaves that meet the requirements, in the order in which the loop looks at them. -/
def candidates (nodes : List PoolNode) (requestID : Bytes32) (check : RequirementsChecker) :
    List PoolNode :=
  let nodes := nodes.filter fun enc => (check.map (· enc)).getD true
  (List.range nodes.length).filterMap fun offset =>
    nodes[(calcMod requestID nodes.length + offset) % nodes.length]?

/-! ## Steps -/

structure PoolServices where
  crypto : Crypto
  attestation : AttestationServices
  cacheConfig : CacheConfig

/-- `writer` is the call of `UpdateNodes` that holds the lock of the node list. Each element of
`refreshes` says whether the pass has read the node list. -/
structure PoolState where
  nodes : Slice PoolNode
  writer : Option Nat
  publicKeyCache : PublicKeyCache
  deadEnclaves : GoMap Bytes32 Unit
  calls : List KeyCall
  refreshes : List Bool
  updates : List NodeUpdate
  fetches : List KeyFetch
  clock : Int

inductive PoolAction where
  | getPublicKeys (requestID : Bytes32) (checkRequirements : RequirementsChecker)
  /-- The next access of a `GetPublicKeys` call. -/
  | proceed (c : Nat)
  /-- A refresh pass begins. -/
  | refresh
  | readNodes (r : Nat)
  | updateNodes (nodes : Slice PoolNode)
  /-- The next access of an `UpdateNodes` call. -/
  | advance (u : Nat)
  | reply (i : Nat) (reply : KeyReply)
  /-- The next access of a fetch after the reply. -/
  | settle (i : Nat)
  | collect

/-- A step and the reading of the clock it makes. -/
structure PoolLabel where
  now : Int
  action : PoolAction

namespace PoolState

/-- All goroutines that `owner` waits for have ended. -/
def AllFinished (s : PoolState) (owner : FetchOwner) : Prop :=
  ∀ f ∈ s.fetches, f.owner = owner → f.pc = .finished

instance (s : PoolState) (owner : FetchOwner) : Decidable (s.AllFinished owner) :=
  inferInstanceAs (Decidable (∀ f ∈ s.fetches, _))

def setCall (s : PoolState) (c : Nat) (call : KeyCall) : PoolState :=
  { s with calls := s.calls.modify c fun _ => call }

def setUpdate (s : PoolState) (u : Nat) (update : NodeUpdate) : PoolState :=
  { s with updates := s.updates.modify u fun _ => update }

def setFetch (s : PoolState) (i : Nat) (fetch : KeyFetch) : PoolState :=
  { s with fetches := s.fetches.modify i fun _ => fetch }

/-- One goroutine for each enclave. -/
def spawn (s : PoolState) (owner : FetchOwner) (enclaves : List PoolNode) : PoolState :=
  { s with fetches := s.fetches ++ enclaves.map (.start owner) }

def setEnclaveLiveness (s : PoolState) (enclaveID : Bytes32) (isAlive : Bool) : PoolState :=
  if isAlive then { s with deadEnclaves := s.deadEnclaves.erase enclaveID }
  else { s with deadEnclaves := s.deadEnclaves.insert enclaveID () }

/-- `GetPublicKeys` from one access to the next. -/
def proceedCall (s : PoolState) (c : Nat) (call : KeyCall) : Option PoolState :=
  match call.pc with
  | .reading =>
      if s.writer = none then
        match candidates s.nodes.data call.requestID call.checkRequirements with
        | [] => some (s.setCall c { call with pc := .returned (.error "no nodes available") })
        | todo => some (s.setCall c { call with pc := .selecting todo })
      else none
  | .selecting [] =>
      some (s.setCall c { call with pc := .returned (.error "no live enclaves available") })
  | .selecting (selectedNode :: todo) =>
      if selectedNode.enclaveID ∈ s.deadEnclaves then
        some (s.setCall c { call with pc := .selecting todo })
      else some ((s.spawn (.call c) [selectedNode]).setCall c { call with pc := .waiting })
  | .waiting =>
      if s.AllFinished (.call c) then
        match call.err with
        | some err => some (s.setCall c { call with pc := .returned (.error err) })
        | none => some (s.setCall c { call with pc := .returned (.ok call.responses) })
      else none
  | .returned _ => none

/-- `UpdateNodes` from one access to the next. -/
def advanceUpdate (pool : PoolServices) (s : PoolState) (u : Nat) (update : NodeUpdate) :
    Option PoolState :=
  match update.pc with
  | .comparing =>
      if s.writer = none then
        if EnclavesList.hash pool.crypto ⟨update.nodes⟩ = EnclavesList.hash pool.crypto ⟨s.nodes⟩
        then some (s.setUpdate u { update with pc := .returned (.ok ()) })
        else some ((s.spawn (.update u) update.nodes.data).setUpdate u
          { update with pc := .validating })
      else none
  | .validating =>
      if s.AllFinished (.update u) then
        match update.err with
        | some err => some (s.setUpdate u { update with pc := .returned (.error err) })
        | none =>
            if s.writer = none then
              some { s.setUpdate u { update with pc := .flushing } with
                nodes := update.nodes, writer := some u }
            else none
      else none
  | .flushing =>
      let s := { s.setUpdate u { update with pc := .returned (.ok ()) } with writer := none }
      if pool.cacheConfig.enableCache then
        let s := { s with publicKeyCache := s.publicKeyCache.flush }
        if pool.cacheConfig.enableProactiveRefresh then
          some { s with refreshes := s.refreshes ++ [false] }
        else some s
      else some s
  | .returned _ => none

/-- A `GetPublicKeys` call gets a response. -/
def respond (s : PoolState) (c : Nat) (data : EnclavePublicKeyData) : PoolState :=
  { s with calls := s.calls.modify c fun call =>
      { call with responses := call.responses ++ [data] } }

/-- A goroutine of a `GetPublicKeys` call returns an error; the first one is kept. -/
def failCall (s : PoolState) (c : Nat) (err : String) : PoolState :=
  { s with calls := s.calls.modify c fun call => { call with err := call.err.or (some err) } }

def failUpdate (s : PoolState) (u : Nat) (err : String) : PoolState :=
  { s with updates := s.updates.modify u fun update =>
      { update with err := update.err.or (some err) } }

/-- The cache write of a fetch. -/
def store (pool : PoolServices) (s : PoolState) (now : Int) (enclave : PoolNode)
    (data : EnclavePublicKeyData) : PoolState :=
  { s with publicKeyCache :=
      setCachedPublicKey pool.cacheConfig s.publicKeyCache now enclave.enclaveID data }

/-- A fetch from one access to the next. -/
def settleFetch (pool : PoolServices) (s : PoolState) (now : Int) (i : Nat) (fetch : KeyFetch) :
    Option PoolState :=
  let finished := s.setFetch i { fetch with pc := .finished }
  match fetch.pc, fetch.owner with
  | .fetched (.ok publicKeyData), .call c =>
      some ((finished.store pool now fetch.enclave publicKeyData).respond c publicKeyData)
  | .fetched (.error err), .call c =>
      match getCachedPublicKey pool.cacheConfig s.publicKeyCache now fetch.enclave.enclaveID with
      | some cached => some (finished.respond c cached)
      | none => some (finished.failCall c err)
  | .fetched (.ok publicKeyData), .refresh =>
      some ((s.setFetch i { fetch with pc := .marking }).store pool now fetch.enclave publicKeyData)
  | .fetched (.error _), .refresh =>
      some (finished.setEnclaveLiveness fetch.enclave.enclaveID false)
  | .marking, _ => some (finished.setEnclaveLiveness fetch.enclave.enclaveID true)
  | .fetched (.ok _), .update _ => some finished
  | .fetched (.error err), .update u =>
      let id := hexString fetch.enclave.enclaveID.data
      some (finished.failUpdate u s!"public key fetch failed for enclave {id}: {err}")
  | .fetching, _ | .finished, _ => none

/-- `getSingleEnclavePublicKey` returns. -/
def receive (pool : PoolServices) (s : PoolState) (i : Nat) (fetch : KeyFetch) (reply : KeyReply) :
    Option PoolState :=
  match fetch.pc with
  | .fetching =>
      let result := getSingleEnclavePublicKey pool.crypto pool.attestation fetch.enclave reply
      some (s.setFetch i { fetch with publicKeyData := result.toOption, pc := .fetched result })
  | _ => none

def act (pool : PoolServices) (s : PoolState) (now : Int) : PoolAction → Option PoolState
  | .getPublicKeys requestID checkRequirements =>
      some { s with calls := s.calls ++ [⟨requestID, checkRequirements, [], none, .reading⟩] }
  | .proceed c => (s.calls[c]?).bind (s.proceedCall c)
  | .refresh =>
      if pool.cacheConfig.enableCache = true ∧ pool.cacheConfig.enableProactiveRefresh = true then
        some { s with refreshes := s.refreshes ++ [false] }
      else none
  | .readNodes r =>
      if s.refreshes[r]? = some false ∧ s.writer = none then
        some ({ s with refreshes := s.refreshes.set r true }.spawn .refresh s.nodes.data)
      else none
  | .updateNodes nodes => some { s with updates := s.updates ++ [⟨nodes, none, .comparing⟩] }
  | .advance u => (s.updates[u]?).bind (s.advanceUpdate pool u)
  | .reply i reply => (s.fetches[i]?).bind fun fetch => s.receive pool i fetch reply
  | .settle i => (s.fetches[i]?).bind (s.settleFetch pool now i)
  | .collect => some { s with publicKeyCache := (s.publicKeyCache.garbageCollect now).1 }

/-- The clock never goes back. -/
def step (pool : PoolServices) (s : PoolState) (l : PoolLabel) : Option PoolState :=
  if s.clock ≤ l.now then { s with clock := l.now }.act pool l.now l.action else none

/-- `NewPoolWithConfig`. -/
def init (pool : PoolServices) (nodes : Slice PoolNode) (start : Int) : PoolState where
  nodes := nodes
  writer := none
  publicKeyCache := .newCache pool.cacheConfig.defaultTTL
  deadEnclaves := ∅
  calls := []
  refreshes := []
  updates := []
  fetches := []
  clock := start

end PoolState

end ConfidentialCompute
