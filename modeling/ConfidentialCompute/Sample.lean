import ConfidentialCompute.Enclave.Server
import ConfidentialCompute.Host.Server

/-!
# A platform to evaluate runs on

Concrete primitives with which the step functions compute, and a configuration and
requests signed under them. The digest of a text is the text read as a number, and a
signature is the key followed by the digest of the message, so a signature verifies under
one key only. An empty box does not open, and a share that begins with a zero byte is invalid.
-/

namespace ConfidentialCompute.Sample

open Go Encoding

def one {α : Type} (a : α) : Slice α := ⟨[a], Nat.one_lt_two_pow (by decide)⟩

def textNumber (text : Bytes) : Nat := text.foldl (fun n b => n * 257 + (b.toNat + 1)) 0

@[irreducible] def digest (text : Bytes) : Bytes32 :=
  ⟨beBytes 32 (textNumber text), length_beBytes _ _⟩

def crypto : Crypto where
  sha256 := digest
  ed25519Verify key message signature := signature = key ++ (digest message).data

def platform : Platform where
  toCrypto := crypto
  boxOpenAnonymous ciphertext _ _ :=
    if bound : 0 < ciphertext.length ∧ ciphertext.length < 2 ^ 63 then
      some ⟨ciphertext, bound.2⟩
    else none
  aggregateShares ciphertext shares _ threshold :=
    if threshold ≤ shares.countP fun share => share.data.head? ≠ some 0 then
      .ok ciphertext
    else .error "not enough shares"
  domainHashPreimage domainTag data := domainTag ++ data

def key (n : UInt8) : Bytes32 := ⟨List.replicate 32 n, List.length_replicate⟩

def signer (n : UInt8) : Slice UInt8 :=
  ⟨(key n).data, by rw [(key n).length_eq]; decide⟩

def sign (n : UInt8) (message : Bytes) : Slice UInt8 :=
  ⟨(key n).data ++ (digest message).data, by
    rw [List.length_append, (key n).length_eq, (digest message).length_eq]
    decide⟩

def config (f : UInt32) : EnclaveConfig :=
  ⟨⟨[signer 1, signer 2, signer 3, signer 4], by decide⟩, ∅, 1, f⟩

/-- A request for the app `a` under the ephemeral key `key 9`, without secrets. -/
def request : ComputeRequest where
  requestID := key 7
  applicationRequestID := ⟨ascii "r", by decide⟩
  publicData := ∅
  ciphertexts := ∅
  ciphertextNames := ∅
  encryptedDecryptionKeyShares := ∅
  enclaveEphemeralPublicKey := signer 9
  masterPublicKey := ∅
  appID := ⟨ascii "a", by decide⟩
  version := ⟨ascii "1", by decide⟩

def secretKey : GoString := ⟨ascii "k", by decide⟩

def otherKey : GoString := ⟨ascii "l", by decide⟩

def signedRequest (n : UInt8) : SignedComputeRequest :=
  { request with signature := sign n (requestPayload crypto (request.hash crypto)) }

def server (f : UInt32) : EnclaveServer :=
  .newEnclaveServer (config f) false false (.newBoxKeychain defaultKeypairExpiration) 0

def label (now : Int) (action : EnclaveAction) : EnclaveLabel := ⟨now, action⟩

def keyGenerated : EnclaveLabel := label 0 (.createKeyPair 0 (key 9) (key 9))

/-- `request`, signed by one signer, arrives as goroutine `id`. -/
def arrival (now : Int) (id : Nat) : EnclaveLabel :=
  label now (.arrive id .post (.batch [signedRequest 1]))

def proceed (now : Int) (id : Nat) : EnclaveLabel := label now (.call id .proceed)

def appReturns (now : Int) (id : Nat) : EnclaveLabel :=
  label now (.call id (.appReturns (.ok ∅)))

def attestorAnswers (now : Int) (id : Nat) : EnclaveLabel :=
  label now (.call id (.attestorAnswers (.ok ∅) none))

def post (newConfig : EnclaveConfig) : EnclaveLabel :=
  label 0 (.setConfig .post (.config newConfig ∅) (.ok ∅))

def vote (now : Int) (n : UInt8) (newConfig : EnclaveConfig) : EnclaveLabel :=
  label now (.updateConfig
    (.config newConfig (sign n (configUpdatePayload crypto (newConfig.hash crypto)))) (.ok ∅))

def flags : HostFlags := ⟨false, 20 * second, "20s", by decide⟩

def bftFlags : HostFlags := { flags with requireBFTQuorum := true }

def hostLabel (now : Int) (action : HostAction) : HostLabel := ⟨now, action⟩

/-- The enclave tells the host that it runs under a configuration. -/
def adopt (now : Int) (f : UInt32) : HostLabel :=
  hostLabel now (.updateConfig (.answered statusOK (some ⟨true, config f, 1, 1, none⟩)))

/-- The request, signed by signer `n`, arrives at the host as goroutine `i` and takes its
section. -/
def joining (now : Int) (n : UInt8) (i : Nat) : List HostLabel :=
  [hostLabel now (.arrive .post (.request (signedRequest n))), hostLabel now (.enter i)]

theorem signer_of_verify {key' message message' : Bytes} {n : UInt8}
    (verified : crypto.ed25519Verify key' message (sign n message').data = true) :
    key' = (key n).data := by
  have eq : (key n).data ++ (digest message').data = key' ++ (digest message).data :=
    of_decide_eq_true verified
  exact (List.append_inj_left' eq (by
    rw [(digest message').length_eq, (digest message).length_eq])).symm

end ConfidentialCompute.Sample
