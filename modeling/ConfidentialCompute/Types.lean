import ConfidentialCompute.Lib.Encoding
import ConfidentialCompute.Lib.Go

/-!
# Messages and what is hashed of them

The request, response and configuration types of `types/types.go`, and for each of
them the byte stream its hash method writes into SHA-256. The streams are named
apart from the hashes (`preimage`, `userDataPreimage`) because what a signature or
an attestation commits to is the stream; the hash only stands for it as long as
SHA-256 is not broken.

SHA-256 and Ed25519 come from Go's standard library and are parameters (`Crypto`).
The `Metrics` and `MetricEvents` fields of responses are advisory telemetry outside
the attestation and are left out.
-/

namespace ConfidentialCompute

open Go Encoding

/-- The cryptographic primitives the code calls. `ed25519Verify key message signature`
is the verdict of `ed25519.Verify` on a key of the right length. -/
structure Crypto where
  sha256 : Bytes → Bytes32
  ed25519Verify : Bytes → Bytes → Bytes → Bool

/-- No two of the given texts have the same digest. -/
def Crypto.CollisionFree (crypto : Crypto) (texts : Set Bytes) : Prop :=
  ∀ a ∈ texts, ∀ b ∈ texts, crypto.sha256 a = crypto.sha256 b → a = b

theorem Crypto.CollisionFree.of_list {crypto : Crypto} {texts : Set Bytes} (list : List Bytes)
    (listed : ∀ text ∈ texts, text ∈ list)
    (apart : ∀ a ∈ list, ∀ b ∈ list, crypto.sha256 a = crypto.sha256 b → a = b) :
    crypto.CollisionFree texts :=
  fun a isA b isB => apart a (listed a isA) b (listed b isB)

theorem Crypto.collisionFree_pair {crypto : Crypto} {a b : Bytes} (same : a = b) :
    crypto.CollisionFree {a, b} := by
  intro x among y among' _
  rw [← same] at among among'
  simp only [Set.mem_insert_iff, Set.mem_singleton_iff, or_self] at among among'
  rw [among, among']

def domainSeparator : Bytes := ascii "CONFIDENTIAL_COMPUTE_PAYLOAD"

/-- The request version whose hash still covers the version text. -/
def serviceConfidentialComputeVersionLegacy : Bytes := ascii "0.0.6"

/-! ## Durations -/

def second : Int := 1000000000

def minute : Int := 60 * second

def hour : Int := 60 * minute

def defaultKeypairExpiration : Int := 24 * hour

def configVoteTTL : Int := 10 * minute

def inboundProxyRequestCacheTTL : Int := 5 * minute

def maxReplayCacheEntries : Int := 500000

/-! ## Encoding helpers -/

def writeLengthPrefix (length : Nat) : Bytes := beBytes 8 length

def writeWithLength (data : Slice UInt8) : Bytes :=
  writeLengthPrefix data.length ++ data.data

/-- A count followed by each element with its own length. -/
def writeAll (elems : Slice (Slice UInt8)) : Bytes :=
  writeLengthPrefix elems.length ++ elems.data.flatMap writeWithLength

/-- `binary.BigEndian.PutUint64(buf, uint64(n))` of an `int64`. -/
def writeInt64 (n : Int) : Bytes := beBytes 8 (n % 2 ^ 64).toNat

/-! ## Configuration -/

structure EnclaveConfig where
  signers : Slice (Slice UInt8)
  masterPublicKey : Slice UInt8
  t : UInt32
  f : UInt32
deriving DecidableEq

namespace EnclaveConfig

/-- The zero value. -/
def zero : EnclaveConfig := ⟨∅, ∅, 0, 0⟩

instance : Inhabited EnclaveConfig := ⟨zero⟩

def isZero (ec : EnclaveConfig) : Bool :=
  ec.t == 0 && ec.f == 0 && ec.signers.length == 0 && ec.masterPublicKey.length == 0

def preimage (ec : EnclaveConfig) : Bytes :=
  domainSeparator ++ ascii "\nEnclaveConfig\n" ++ (writeAll ec.signers ++
    (writeWithLength ec.masterPublicKey ++
      (beBytes 4 ec.t.toNat ++ beBytes 4 ec.f.toNat)))

def hash (crypto : Crypto) (ec : EnclaveConfig) : Bytes32 := crypto.sha256 ec.preimage

end EnclaveConfig

/-! ## Compute requests -/

structure ComputeRequest where
  requestID : Bytes32
  applicationRequestID : GoString
  publicData : Slice UInt8
  ciphertexts : Slice (Slice UInt8)
  ciphertextNames : Slice GoString
  encryptedDecryptionKeyShares : Slice (Slice (Slice UInt8))
  enclaveEphemeralPublicKey : Slice UInt8
  masterPublicKey : Slice UInt8
  appID : GoString
  version : GoString
deriving DecidableEq

namespace ComputeRequest

/-- The last field of the stream: the version of a legacy request, the application
request ID of any other. -/
def versionField (cr : ComputeRequest) : GoString :=
  if cr.version.data = serviceConfidentialComputeVersionLegacy then cr.version
  else cr.applicationRequestID

/-- `EncryptedDecryptionKeyShares` is not part of the stream. -/
def preimage (cr : ComputeRequest) : Bytes :=
  domainSeparator ++ ascii "\nComputeRequest\n" ++ (cr.requestID.data ++
    (writeWithLength cr.publicData ++
      (writeAll cr.ciphertextNames ++
        (writeAll cr.ciphertexts ++
          (writeWithLength cr.enclaveEphemeralPublicKey ++
            (writeWithLength cr.masterPublicKey ++
              (writeWithLength cr.appID ++ writeWithLength cr.versionField)))))))

def hash (crypto : Crypto) (cr : ComputeRequest) : Bytes32 := crypto.sha256 cr.preimage

end ComputeRequest

structure SignedComputeRequest extends ComputeRequest where
  signature : Slice UInt8
deriving DecidableEq

/-- The version is the legacy one. -/
def IsLegacy (version : GoString) : Prop :=
  version.data = serviceConfidentialComputeVersionLegacy

instance (version : GoString) : Decidable (IsLegacy version) :=
  inferInstanceAs (Decidable (_ = _))

/-! ## Lists of enclaves -/

namespace EnclavesList

/-- An enclave with every field that the hash of a list covers. -/
structure Enclave where
  enclaveID : Bytes32
  enclaveURL : GoString
  trustedValues : Slice (Slice UInt8)
  enclaveType : GoString
  enclaveAuthHeader : GoString
  enclaveExtraData : Slice UInt8
  region : GoString
deriving DecidableEq

/-- What the loop of `Hash` writes for one enclave. -/
def Enclave.write (enclave : Enclave) : Bytes :=
  enclave.enclaveID.data ++ (writeWithLength enclave.enclaveURL ++
    (writeAll enclave.trustedValues ++
      (writeWithLength enclave.enclaveType ++
        (writeWithLength enclave.enclaveAuthHeader ++
          (writeWithLength enclave.enclaveExtraData ++ writeWithLength enclave.region)))))

end EnclavesList

structure EnclavesList where
  enclaves : Slice EnclavesList.Enclave
deriving DecidableEq

namespace EnclavesList

def preimage (el : EnclavesList) : Bytes :=
  domainSeparator ++ ascii "\nEnclavesList\n" ++ (writeLengthPrefix el.enclaves.length ++
    el.enclaves.data.flatMap Enclave.write)

def hash (crypto : Crypto) (el : EnclavesList) : Bytes32 := crypto.sha256 el.preimage

end EnclavesList

/-! ## Responses -/

structure ExecuteResponse where
  requestID : Bytes32
  applicationRequestID : GoString
  requestHash : Bytes32
  output : Slice UInt8
  config : EnclaveConfig
  attestation : Slice UInt8
deriving DecidableEq

/-- What `UserDataHash` hashes. The application request ID is covered only when the
request is not of the legacy version. -/
def ExecuteResponse.userDataPreimage (crypto : Crypto) (er : ExecuteResponse)
    (requestVersion : GoString) : Bytes :=
  er.requestID.data ++ (domainSeparator ++ ascii "\nExecuteResponse\n" ++
    (writeWithLength er.output ++
      ((er.config.hash crypto).data ++
        (er.requestHash.data ++
          if requestVersion.data = serviceConfidentialComputeVersionLegacy then []
          else writeWithLength er.applicationRequestID))))

def ExecuteResponse.userDataHash (crypto : Crypto) (er : ExecuteResponse)
    (requestVersion : GoString) : Bytes :=
  (crypto.sha256 (er.userDataPreimage crypto requestVersion)).data

structure PublicKeyResponse where
  publicKeys : Slice (Slice UInt8)
  creationTimes : Slice Int
  ttls : Slice Int
  config : EnclaveConfig
  attestation : Slice UInt8
deriving DecidableEq

/-- What `PublicKeyHash` hashes; creation times are nanoseconds since the epoch. -/
def PublicKeyResponse.preimage (crypto : Crypto) (pkr : PublicKeyResponse) : Bytes :=
  domainSeparator ++ ascii "\nPublicKeyResponse\n" ++ (writeAll pkr.publicKeys ++
    (writeLengthPrefix pkr.creationTimes.length ++
      (pkr.creationTimes.data.flatMap writeInt64 ++
        (writeLengthPrefix pkr.ttls.length ++
          (pkr.ttls.data.flatMap writeInt64 ++ (pkr.config.hash crypto).data)))))

def PublicKeyResponse.publicKeyHash (crypto : Crypto) (pkr : PublicKeyResponse) : Bytes32 :=
  crypto.sha256 (pkr.preimage crypto)

structure SetConfigResponse where
  config : EnclaveConfig
  attestation : Slice UInt8
deriving DecidableEq

/-- What `SetConfigResponse.UserDataHash` hashes. -/
def setConfigPreimage (crypto : Crypto) (config : EnclaveConfig) : Bytes :=
  domainSeparator ++ ascii "\nSetConfigResponse\n" ++ (config.hash crypto).data

def setConfigUserDataHash (crypto : Crypto) (config : EnclaveConfig) : Bytes :=
  (crypto.sha256 (setConfigPreimage crypto config)).data

structure UpdateConfigResponse where
  applied : Bool
  config : EnclaveConfig
  signersCollected : Nat
  signersRequired : Nat
  attestation : Option (Slice UInt8)
deriving DecidableEq

/-- What the gateway client's `hashRequestBody` hashes. -/
def gatewayRequestPreimage (body : Bytes) : Bytes :=
  domainSeparator ++ ascii "\nGatewayRequest\n" ++ body

/-! ## Signature payloads -/

def shortMessageMax : Nat := 1024

/-- The vendored libocr domain separation for messages signed under a peer ID. -/
def makePeerIDSignatureDomainSeparatedPayload (crypto : Crypto)
    (separator message : Bytes) : Bytes :=
  List.replicate 64 0x20 ++ ascii "ragep2p arbitrary message signing" ++ [0] ++
    (beBytes 8 separator.length ++ (separator ++
      if message.length ≤ shortMessageMax then
        0 :: (beBytes 8 message.length ++ message)
      else
        1 :: (crypto.sha256 message).data))

def getConfidentialComputePayloadPrefix : Bytes := ascii "CONFIDENTIAL_COMPUTE_PAYLOAD_"

def getConfidentialComputeConfigUpdatePrefix : Bytes :=
  ascii "CONFIDENTIAL_COMPUTE_CONFIG_UPDATE_"

/-- What a DON node signs to vouch for a compute request. -/
def requestPayload (crypto : Crypto) (requestHash : Bytes32) : Bytes :=
  makePeerIDSignatureDomainSeparatedPayload crypto getConfidentialComputePayloadPrefix
    requestHash.data

/-- What a DON node signs to vote for a configuration. -/
def configUpdatePayload (crypto : Crypto) (configHash : Bytes32) : Bytes :=
  makePeerIDSignatureDomainSeparatedPayload crypto getConfidentialComputeConfigUpdatePrefix
    configHash.data

end ConfidentialCompute
