import ConfidentialCompute.Keychain
import ConfidentialCompute.Lib.Quorum
import ConfidentialCompute.SignatureVerifier

/-!
# What `handleExecute` computes

The parts of the enclave's `/requests` handler that touch no shared state: the checks on
a batch of signed requests, and the recovery of the secrets from the decryption shares
the batch carries. `ConfidentialCompute/Enclave/Server.lean` runs them between the
handler's accesses to shared state.

Third-party code enters through `Platform`: NaCl box decryption, the share combiner, and
the pre-image of `teeattestation.DomainHash`, which the workflows app attests.
-/

namespace ConfidentialCompute

open Go

structure Platform extends Crypto where
  boxOpenAnonymous : OpenAnonymous
  /-- `AggregateShares ciphertext shares publicKey threshold`. -/
  aggregateShares : Slice UInt8 → List (Slice UInt8) → Slice UInt8 → Nat →
    Except String (Slice UInt8)
  /-- What `teeattestation.DomainHash domainTag data` hashes. -/
  domainHashPreimage : Bytes → Bytes → Bytes

inductive HttpMethod where
  | get | post | patch
  | other (name : String)
deriving DecidableEq

def HttpMethod.name : HttpMethod → String
  | .get => "GET"
  | .post => "POST"
  | .patch => "PATCH"
  | .other name => name

def statusOK : Nat := 200
def statusAccepted : Nat := 202
def statusBadRequest : Nat := 400
def statusMethodNotAllowed : Nat := 405
def statusConflict : Nat := 409
def statusInternalServerError : Nat := 500

/-- The app's error; its text must not contain sensitive information. -/
structure ExecuteError where
  error : String
  code : Int
deriving DecidableEq

/-- What a client of `/requests` gets to see. After a panic `net/http` drops the
connection without a reply. -/
inductive ExecuteReply where
  | error (status : Nat) (message : String)
  | success (resp : ExecuteResponse)
  | aborted
deriving DecidableEq

def ExecuteReply.IsSuccess (reply : ExecuteReply) : Prop := ∃ resp, reply = .success resp

def hexDigit (n : Nat) : Char := if n < 10 then Char.ofNat (48 + n) else Char.ofNat (87 + n)

/-- `%x`. -/
def hexString (b : Bytes) : String :=
  String.ofList (b.flatMap fun x => [hexDigit (x.toNat / 16), hexDigit (x.toNat % 16)])

/-! ## Admission of a batch -/

/-- The loop over the batch: all hashes equal, every signature by an allowed signer.
Returns the hashes of the signers' keys. -/
def checkRequests (crypto : Crypto) (config : EnclaveConfig) (hash : Bytes32) :
    Nat → List SignedComputeRequest → Finset Bytes32 → Outcome ExecuteReply (Finset Bytes32)
  | _, [], signerSet => .ok signerSet
  | i, req :: rest, signerSet =>
      let reqHash := req.hash crypto
      if hash ≠ reqHash then
        let have_ := hexString reqHash.data
        let want := hexString hash.data
        .err (.error statusBadRequest
          s!"request hash mismatch for request {i}: have {have_}, want {want}")
      else
        match verifySignature crypto (requestPayload crypto reqHash) req.signature
            config.signers with
        | .panicked => .panicked
        | .err e =>
            let reason := e.message
            .err (.error statusBadRequest
              s!"signature verification failed for request {i}: {reason}")
        | .ok signer =>
            checkRequests crypto config hash (i + 1) rest
              (insert (crypto.sha256 signer.data) signerSet)

/-- All checks that precede the replay protection; `hash` is that of the first request. -/
def admitBatch (crypto : Crypto) (config : EnclaveConfig) (first : SignedComputeRequest)
    (rest : List SignedComputeRequest) : Outcome ExecuteReply Bytes32 :=
  match checkRequests crypto config (first.hash crypto) 0 (first :: rest) ∅ with
  | .panicked => .panicked
  | .err reply => .err reply
  | .ok signerSet =>
      let required := config.f.toNat + 1
      let got := signerSet.card
      if got < required then
        .err (.error statusBadRequest
          s!"not enough requests by unique signers to reach quorum, got {got}, need {required}")
      else
        .ok (first.hash crypto)

/-- What admission of a batch under a configuration establishes: one hash throughout, and
valid signatures over it by at least `F + 1` distinct configured signers. -/
structure Admitted (crypto : Crypto) (config : EnclaveConfig)
    (reqs : List SignedComputeRequest) (hash : Bytes32) : Prop where
  hashes : ∀ req ∈ reqs, req.hash crypto = hash
  quorum : ∃ signers : Finset (Slice UInt8), config.f.toNat + 1 ≤ signers.card ∧
    ∀ signer ∈ signers, signer ∈ config.signers ∧
      ∃ req ∈ reqs, crypto.ed25519Verify signer.data (requestPayload crypto hash)
        req.signature.data = true

/-- The loop collects the key hashes of distinct signers with a valid signature each. -/
theorem checkRequests_ok {crypto : Crypto} {config : EnclaveConfig} {hash : Bytes32} :
    ∀ {reqs : List SignedComputeRequest} {i : Nat} {start signerSet : Finset Bytes32},
      checkRequests crypto config hash i reqs start = .ok signerSet →
      (∀ req ∈ reqs, req.hash crypto = hash) ∧
        ∀ d ∈ signerSet, d ∈ start ∨ ∃ signer ∈ config.signers, crypto.sha256 signer.data = d ∧
          ∃ req ∈ reqs, crypto.ed25519Verify signer.data (requestPayload crypto hash)
            req.signature.data = true
  | [], _, _, _, ok => by
      cases ok
      exact ⟨by simp, fun d member => Or.inl member⟩
  | req :: reqs, i, start, signerSet, ok => by
      unfold checkRequests at ok
      dsimp only at ok
      split at ok
      · cases ok
      · rename_i same
        have reqHash : req.hash crypto = hash := (not_not.mp same).symm
        split at ok
        · cases ok
        · cases ok
        · rename_i signer verified
          obtain ⟨member, valid⟩ := verifySignature_ok verified
          rw [reqHash] at valid
          obtain ⟨hashes, signed⟩ := checkRequests_ok ok
          refine ⟨by simpa [reqHash] using hashes, fun d inSet => ?_⟩
          rcases signed d inSet with known | ⟨other, allowed, digest, req', inReqs, valid'⟩
          · rcases Finset.mem_insert.mp known with rfl | known
            · exact Or.inr ⟨signer, member, rfl, req, List.mem_cons_self, valid⟩
            · exact Or.inl known
          · exact Or.inr ⟨other, allowed, digest, req', List.mem_cons_of_mem _ inReqs, valid'⟩

theorem admitBatch_ok {crypto : Crypto} {config : EnclaveConfig} {first : SignedComputeRequest}
    {rest : List SignedComputeRequest} {hash : Bytes32}
    (ok : admitBatch crypto config first rest = .ok hash) :
    hash = first.hash crypto ∧ Admitted crypto config (first :: rest) hash := by
  unfold admitBatch at ok
  split at ok
  · cases ok
  · cases ok
  · rename_i signerSet checked
    dsimp only at ok
    split at ok
    · cases ok
    · rename_i enough
      cases ok
      obtain ⟨hashes, signed⟩ := checkRequests_ok checked
      have covered : ∀ d ∈ signerSet, ∃ signer : Slice UInt8, crypto.sha256 signer.data = d ∧
          (signer ∈ config.signers ∧ ∃ req ∈ first :: rest,
            crypto.ed25519Verify signer.data
              (requestPayload crypto (first.hash crypto)) req.signature.data = true) := by
        intro d member
        rcases signed d member with impossible | ⟨signer, allowed, digest, valid⟩
        · exact absurd impossible (Finset.notMem_empty d)
        · exact ⟨signer, digest, allowed, valid⟩
      obtain ⟨signers, card, each⟩ := Quorum.exists_sources covered
      exact ⟨rfl, hashes, signers, by omega, each⟩

/-! ## Recovery of the secrets -/

/-- `secretsMap`. -/
abbrev Secrets := GoMap GoString (Slice UInt8)

/-- The shares that decrypt under the keypair, in order; the others are skipped. -/
def decryptShares (p : Platform) (kp : BoxKeypair) (now : Int) (shares : Slice (Slice UInt8)) :
    List (Slice UInt8) :=
  shares.data.filterMap fun share => (kp.decrypt p.boxOpenAnonymous now share).toOption

/-- The inner loop over the ciphertexts, with the share sets of one node. Both the share
sets and the names are indexed by the position of the ciphertext. -/
def nodeSecrets (p : Platform) (kp : BoxKeypair) (now : Int) (masterPublicKey : Slice UInt8)
    (threshold : Nat) :
    List (Slice UInt8) → List (Slice (Slice UInt8)) → List GoString → Secrets →
      Outcome String Secrets
  | [], _, _, acc => .ok acc
  | ciphertext :: cs, shares :: ss, name :: ns, acc =>
      match p.aggregateShares ciphertext (decryptShares p kp now shares) masterPublicKey
          threshold with
      | .error e => .err e
      | .ok secret =>
          nodeSecrets p kp now masterPublicKey threshold cs ss ns (acc.insert name secret)
  | _ :: _, _, _, _ => .panicked

/-- The outer loop over the nodes of the batch: the first node whose share sets all
aggregate supplies the secrets. With no node left, `lastErr` is reported; reading it
while it is still nil would be a panic. -/
def recoverSecrets (p : Platform) (kp : BoxKeypair) (now : Int) (req : ComputeRequest)
    (masterPublicKey : Slice UInt8) (threshold : Nat) :
    Nat → List SignedComputeRequest → Option String → Outcome String Secrets
  | _, [], none => .panicked
  | _, [], some lastErr => .err lastErr
  | nodeIdx, nodeReq :: rest, _ =>
      let sets := nodeReq.encryptedDecryptionKeyShares
      if sets.length ≠ req.ciphertexts.length then
        let got := sets.length
        let expected := req.ciphertexts.length
        recoverSecrets p kp now req masterPublicKey threshold (nodeIdx + 1) rest
          (some s!"node {nodeIdx} has {got} sets of encrypted decryption key shares, expected {expected}")
      else
        match nodeSecrets p kp now masterPublicKey threshold req.ciphertexts.data sets.data
            req.ciphertextNames.data ∅ with
        | .panicked => .panicked
        | .ok secrets => .ok secrets
        | .err e =>
            recoverSecrets p kp now req masterPublicKey threshold (nodeIdx + 1) rest (some e)

/-- The request's own vault key takes precedence over the configured one. -/
def effectiveMasterPublicKey (config : EnclaveConfig) (req : ComputeRequest) : Slice UInt8 :=
  if 0 < req.masterPublicKey.length then req.masterPublicKey else config.masterPublicKey

/-- The checks on the first request of an admitted batch, before the keypair lookup. -/
def checkFields (req : ComputeRequest) : Option ExecuteReply :=
  if req.ciphertexts.length ≠ req.ciphertextNames.length then
    let ciphertexts := req.ciphertexts.length
    let names := req.ciphertextNames.length
    some (.error statusBadRequest
      s!"number of ciphertexts ({ciphertexts}) does not match number of ciphertext names ({names})")
  else if req.appID.length = 0 then
    some (.error statusBadRequest "missing AppID in request")
  else if req.version.length = 0 then
    some (.error statusBadRequest "missing Version in request")
  else
    none

end ConfidentialCompute
