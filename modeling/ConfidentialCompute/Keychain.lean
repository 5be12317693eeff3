import ConfidentialCompute.Cache
import ConfidentialCompute.Types

/-!
# The enclave's ephemeral keypairs

`box_keychain.go`: keypairs live in an unbounded TTL cache under their public key, and
every keypair expires after the keychain's `expiration`. Rotation only adds a keypair;
nothing but expiry removes one.
-/

namespace ConfidentialCompute

open Go

structure BoxKeypair where
  publicKey : Bytes32
  privateKey : Bytes32
  ttl : Int
  creationTime : Int
deriving DecidableEq

/-- `box.OpenAnonymous` on a ciphertext, a public and a private key. -/
abbrev OpenAnonymous := Bytes → Bytes32 → Bytes32 → Option (Slice UInt8)

inductive DecryptError where
  | expired (ageMs ttlMs : Int)
  | failed
deriving DecidableEq

/-- An expired keypair decrypts nothing, whatever the cache still holds. -/
def BoxKeypair.decrypt (openAnonymous : OpenAnonymous) (kp : BoxKeypair) (now : Int)
    (ciphertext : Slice UInt8) : Except DecryptError (Slice UInt8) :=
  if kp.creationTime + kp.ttl < now then
    .error (.expired ((now - kp.creationTime) / 1000000) (kp.ttl / 1000000))
  else
    match openAnonymous ciphertext.data kp.publicKey kp.privateKey with
    | none => .error .failed
    | some decrypted => .ok decrypted

def requestKeyMapTTL : Int := 1 * hour

def maxRequestKeyMapEntries : Int := 100000

structure BoxKeychain where
  keypairCache : Cache Bytes32 BoxKeypair
  requestKeyMap : Cache Bytes32 Bytes32
  expiration : Int

namespace BoxKeychain

def newBoxKeychain (expiration : Int) : BoxKeychain where
  keypairCache := Cache.newCache expiration
  requestKeyMap := Cache.newBoundedCache requestKeyMapTTL maxRequestKeyMapEntries
  expiration := expiration

/-- `generateKeypair` reads the clock at `generatedAt`, the cache again at `now`. -/
def createKeyPair (skc : BoxKeychain) (generatedAt now : Int)
    (publicKey privateKey : Bytes32) : BoxKeychain :=
  { skc with
    keypairCache := skc.keypairCache.set now publicKey
      ⟨publicKey, privateKey, skc.expiration, generatedAt⟩ none }

inductive KeyError where
  | invalidLength (got : Nat)
  | notFound
deriving DecidableEq

def KeyError.message : KeyError → String
  | .invalidLength got =>
      s!"invalid public key length: expected 32 bytes, got {got} bytes"
  | .notFound => "keypair not found"

def getKeyPair (skc : BoxKeychain) (now : Int) (publicKey : Slice UInt8) :
    Except KeyError BoxKeypair :=
  if len : publicKey.data.length = 32 then
    match skc.keypairCache.get now ⟨publicKey.data, len⟩ with
    | none => .error .notFound
    | some key => .ok key
  else
    .error (.invalidLength publicKey.length)

/-- The unexpired keypairs, in order of creation. -/
def getKeyPairs (skc : BoxKeychain) (now : Int) : List BoxKeypair :=
  skc.keypairCache.keys.filterMap fun key => skc.keypairCache.get now key

variable {skc : BoxKeychain} {generatedAt now : Int} {key publicKey privateKey : Bytes32}

theorem getKeyPair_ok {publicKey : Slice UInt8} {kp : BoxKeypair}
    (ok : skc.getKeyPair now publicKey = .ok kp) :
    ∃ key : Bytes32, key.data = publicKey.data ∧
      skc.keypairCache.get now key = some kp := by
  unfold getKeyPair at ok
  split at ok
  · rename_i len
    refine ⟨⟨publicKey.data, len⟩, rfl, ?_⟩
    split at ok
    · cases ok
    · rename_i found
      cases ok
      exact found
  · cases ok

/-- The keypair cache has no cap, so a new keypair displaces no other. -/
theorem lookup_createKeyPair (unbounded : skc.keypairCache.maxEntries ≤ 0) :
    (skc.createKeyPair generatedAt now publicKey privateKey).keypairCache.items.lookup key =
      if key = publicKey then
        some ⟨⟨publicKey, privateKey, skc.expiration, generatedAt⟩, now,
          skc.keypairCache.timeToLive⟩
      else skc.keypairCache.items.lookup key :=
  Cache.lookup_set (Cache.HasRoom.of_unbounded unbounded)

end BoxKeychain

end ConfidentialCompute
