import ConfidentialCompute.Enclave.Execute
import ConfidentialCompute.Lib.Runs

/-!
# Requests for a keypair

`GetKeyPairForRequest` of `box_keychain.go`, next to the rotation goroutine with its sweep. The
mapping from request IDs to keypairs and the keypairs themselves stand in two caches with a lock
each. The state holds both caches, the rotation goroutine and the calls; each access to a cache
is a step, and any time may pass between two steps.
-/

namespace ConfidentialCompute

open Go

/-! ## Calls -/

inductive KeyRequestError where
  | expired (requestID : Bytes32)
  | noKeypairs
deriving DecidableEq

def KeyRequestError.message : KeyRequestError → String
  | .expired requestID =>
      let id := hexString requestID.data
      s!"mapped keypair for request {id} has expired"
  | .noKeypairs => "no keypairs available"

/-- Where a call is: the access to a cache it makes next. -/
inductive KeyRequestPC where
  | lookup
  /-- A mapping has been found, at the start or by `GetOrSet`. -/
  | mapped (keyID : Bytes32)
  /-- There is no keypair for it, and the mapping is to be deleted. -/
  | deleting
  | listing
  | reading (todo : List Bytes32) (keypairs : List BoxKeypair)
  | storing (newest : BoxKeypair)
  | done (result : Except KeyRequestError BoxKeypair)
deriving DecidableEq

/-- A call of `GetKeyPairForRequest`. `storedAt` is not part of the program: it is the time at
which the mapping was stored that the call has found or stored. -/
structure KeyRequest where
  requestID : Bytes32
  pc : KeyRequestPC
  storedAt : Option Int
deriving DecidableEq

/-- One turn of the loop that looks for the newest keypair. -/
def newerKeypair (newest : Option BoxKeypair) (kp : BoxKeypair) : Option BoxKeypair :=
  match newest with
  | none => some kp
  | some found => if found.creationTime < kp.creationTime then some kp else some found

def newestKeypair (keypairs : List BoxKeypair) : Option BoxKeypair :=
  keypairs.foldl newerKeypair none

/-- The time at which the mapping of a request ID was stored. -/
def BoxKeychain.mappedAt (skc : BoxKeychain) (requestID : Bytes32) : Option Int :=
  (skc.requestKeyMap.items.lookup requestID).map (·.creationTime)

/-- One access of a call to a cache. -/
def KeyRequest.proceed (skc : BoxKeychain) (now : Int) (call : KeyRequest) :
    Option (BoxKeychain × KeyRequest) :=
  match call.pc with
  | .lookup =>
      match skc.requestKeyMap.get now call.requestID with
      | some keyID => some (skc,
          { call with pc := .mapped keyID, storedAt := skc.mappedAt call.requestID })
      | none => some (skc, { call with pc := .listing })
  | .mapped keyID =>
      match skc.keypairCache.get now keyID with
      | some kp => some (skc, { call with pc := .done (.ok kp) })
      | none => some (skc, { call with pc := .deleting })
  | .deleting =>
      some ({ skc with requestKeyMap := skc.requestKeyMap.delete call.requestID },
        { call with pc := .done (.error (.expired call.requestID)) })
  | .listing => some (skc, { call with pc := .reading skc.keypairCache.keys [] })
  | .reading (key :: todo) keypairs =>
      some (skc, { call with
        pc := .reading todo (keypairs ++ (skc.keypairCache.get now key).toList) })
  | .reading [] keypairs =>
      match newestKeypair keypairs with
      | none => some (skc, { call with pc := .done (.error .noKeypairs) })
      | some newest => some (skc, { call with pc := .storing newest })
  | .storing newest =>
      match skc.requestKeyMap.getOrSet now call.requestID newest.publicKey none with
      | (_, keyID, true) => some (skc,
          { call with pc := .mapped keyID, storedAt := skc.mappedAt call.requestID })
      | (requestKeyMap, _, false) => some ({ skc with requestKeyMap := requestKeyMap },
          { call with pc := .done (.ok newest), storedAt := some now })
  | .done _ => none

/-! ## The rotation goroutine -/

inductive RotationPC where
  /-- The first keypair has not been created. -/
  | starting
  | waiting
  | listing
  | sweeping (todo : List Bytes32)
  | checking (requestID publicKey : Bytes32) (todo : List Bytes32)
  | deleting (requestID : Bytes32) (todo : List Bytes32)
deriving DecidableEq

/-- One access of `sweepRequestKeyMap` to a cache. -/
def RotationPC.proceed (skc : BoxKeychain) (now : Int) :
    RotationPC → Option (BoxKeychain × RotationPC)
  | .starting | .waiting => none
  | .listing => some (skc, .sweeping skc.requestKeyMap.keys)
  | .sweeping [] => some (skc, .waiting)
  | .sweeping (requestID :: todo) =>
      match skc.requestKeyMap.get now requestID with
      | some publicKey => some (skc, .checking requestID publicKey todo)
      | none => some (skc, .sweeping todo)
  | .checking requestID publicKey todo =>
      match skc.keypairCache.get now publicKey with
      | some _ => some (skc, .sweeping todo)
      | none => some (skc, .deleting requestID todo)
  | .deleting requestID todo =>
      some ({ skc with requestKeyMap := skc.requestKeyMap.delete requestID }, .sweeping todo)

/-- The goroutine after it has created a keypair: the first is not followed by a sweep. -/
def RotationPC.created : RotationPC → Option RotationPC
  | .starting => some .waiting
  | .waiting => some .listing
  | _ => none

/-! ## Steps -/

/-- `generated` is not part of the program: every keypair created so far. -/
structure PinningState where
  keychain : BoxKeychain
  rotation : RotationPC
  calls : List KeyRequest
  clock : Int
  generated : List BoxKeypair

inductive PinningAction where
  | start (requestID : Bytes32)
  | proceed (id : Nat)
  /-- The rotation goroutine creates a keypair. -/
  | rotate (generatedAt : Int) (publicKey privateKey : Bytes32)
  | sweep
  | collectKeypairs
  | collectMappings

/-- A step and the reading of the clock it makes. -/
structure PinningLabel where
  now : Int
  action : PinningAction

namespace PinningState

/-- Any durations: how long keypairs and mappings live, and any cap on the mappings. -/
def init (expiration mappingTTL maxEntries start : Int) : PinningState where
  keychain := ⟨.newCache expiration, .newBoundedCache mappingTTL maxEntries, expiration⟩
  rotation := .starting
  calls := []
  clock := start
  generated := []

def act (s : PinningState) (now : Int) : PinningAction → Option PinningState
  | .start requestID => some { s with calls := s.calls ++ [⟨requestID, .lookup, none⟩] }
  | .proceed id => do
      let call ← s.calls[id]?
      let (keychain, call) ← call.proceed s.keychain now
      return { s with keychain := keychain, calls := s.calls.modify id fun _ => call }
  | .rotate generatedAt publicKey privateKey => do
      let rotation ← s.rotation.created
      if generatedAt ≤ now then
        return { s with
          keychain := s.keychain.createKeyPair generatedAt now publicKey privateKey
          rotation := rotation
          generated :=
            s.generated ++ [⟨publicKey, privateKey, s.keychain.expiration, generatedAt⟩] }
      else none
  | .sweep => do
      let (keychain, rotation) ← s.rotation.proceed s.keychain now
      return { s with keychain := keychain, rotation := rotation }
  | .collectKeypairs =>
      some { s with keychain := { s.keychain with
        keypairCache := (s.keychain.keypairCache.garbageCollect now).1 } }
  | .collectMappings =>
      some { s with keychain := { s.keychain with
        requestKeyMap := (s.keychain.requestKeyMap.garbageCollect now).1 } }

/-- The clock never goes back. -/
def step (s : PinningState) (l : PinningLabel) : Option PinningState :=
  if s.clock ≤ l.now then { s with clock := l.now }.act l.now l.action else none

end PinningState

end ConfidentialCompute
