import ConfidentialCompute.Enclave.Recovery
import ConfidentialCompute.Executor.Secrets

/-!
# From the executor to the app

`Execute` of `capabilities/framework/executor.go` names each ciphertext of a request by the
key of its secret and leaves the namespace out. The enclave stores the plaintexts in a map
under these names, so of two secrets with one key only the later one gets to the app.

The vault's answers are matched by the key as well, so within one answer two such secrets are
one. Only the cache, whose keys include the namespace, brings different secrets with one key
into one request.
-/

namespace ConfidentialCompute

open Go Runs

/-! ## The request -/

namespace Executor

def computeRequest (crypto : Crypto) (e : Executor) (protoBytes : Slice UInt8)
    (secrets : Slice SecretIdentifier) (publicKey : Slice UInt8) (metadata : RequestMetadata)
    (found : EncryptedSecrets) : ComputeRequest where
  requestID := crypto.sha256 metadata.workflowExecutionID.data
  applicationRequestID := metadata.workflowExecutionID
  publicData := protoBytes
  ciphertexts := found.encryptedSecrets
  ciphertextNames := secrets.map (·.key)
  encryptedDecryptionKeyShares := found.encryptedDecryptionShares
  enclaveEphemeralPublicKey := publicKey
  masterPublicKey := found.rawVaultPublicKey
  appID := e.capabilityID
  version := e.confidentialComputeVersion

/-- One attempt of `Execute`, from the enclave's parameters to the request that is signed. -/
def prepareRequest (px : ExecutorPlatform) (e : Executor) (now later : Int)
    (protoBytes : Option (Slice UInt8)) (secrets : Slice SecretIdentifier)
    (publicKey : Slice UInt8) (metadata : RequestMetadata) (w : VaultWorld) :
    Executor × Outcome ExecutorError ComputeRequest :=
  let fetched := e.getEncryptedDecryptionShares px now later secrets publicKey metadata w
  match fetched.result with
  | .panicked => (fetched.executor, .panicked)
  | .err err =>
      (fetched.executor, .err (err.wrap
        (ascii "failed to get encrypted decryption key shares from VaultDON: ")))
  | .ok found =>
      match protoBytes with
      | none => (fetched.executor, .err (errorf (ascii "input cannot be nil")))
      | some input =>
          (fetched.executor,
            .ok (e.computeRequest px.toCrypto input secrets publicKey metadata found))

end Executor

/-! ## The names of a request -/

/-- If the secrets are served from the cache, those with one key have one plaintext. -/
def Executor.CacheAgrees (crypto : Crypto) (plaintext : Slice UInt8 → Slice UInt8)
    (e : Executor) (now : Int) (publicKey : Slice UInt8) (workflowOwner : GoString)
    (secrets : Slice SecretIdentifier) : Prop :=
  ∀ entries, e.cachedBatch crypto now publicKey workflowOwner secrets = some entries →
    ∀ a ∈ secrets.data.zip entries.data, ∀ b ∈ secrets.data.zip entries.data,
      a.1.key = b.1.key → plaintext a.2.encryptedSecret = plaintext b.2.encryptedSecret

section

variable {px : ExecutorPlatform} {plaintext : Slice UInt8 → Slice UInt8} {e : Executor}
  {now later : Int} {protoBytes : Option (Slice UInt8)} {secrets : Slice SecretIdentifier}
  {publicKey : Slice UInt8} {metadata : RequestMetadata} {w : VaultWorld}

theorem prepareRequest_ok {req : ComputeRequest}
    (ok : (e.prepareRequest px now later protoBytes secrets publicKey metadata w).2 = .ok req) :
    ∃ input found, protoBytes = some input ∧
      req = e.computeRequest px.toCrypto input secrets publicKey metadata found ∧
      (e.getEncryptedDecryptionShares px now later secrets publicKey metadata w).result =
        .ok found := by
  unfold Executor.prepareRequest at ok
  dsimp only at ok
  split at ok
  · cases ok
  · cases ok
  · rename_i found fetched
    split at ok
    · cases ok
    · rename_i input
      cases ok
      exact ⟨input, found, rfl, rfl, fetched⟩

/-- The answers to two requests with one key are taken from one response. -/
theorem evaluate_functional {threshold : Int} {out : Vault.GetSecretsResponse}
    {found : EncryptedSecrets}
    (ok : evaluate threshold (secretRequests px publicKey metadata.workflowOwner secrets) out =
      .ok found) :
    Functional ((secrets.data.map (·.key)).zip (found.encryptedSecrets.data.map plaintext)) := by
  obtain ⟨_, _, material, taken, isSecrets, _⟩ := evaluate_ok ok
  obtain ⟨_, each⟩ := List.forall₂_iff_zip.mp (List.forall₂_map_left_iff.mp taken)
  have plaintexts : found.encryptedSecrets.data.map plaintext =
      material.data.map fun entry => plaintext entry.1 := by
    rw [isSecrets]
    exact List.map_map
  rw [plaintexts, functional_zip_iff]
  intro a among b among' same
  obtain ⟨resp, matched, isA⟩ := each among
  obtain ⟨resp', matched', isB⟩ := each among'
  have one : resp = resp' := by
    have first := matchingResponse_ok matched
    have second := matchingResponse_ok matched'
    dsimp only at first second
    rw [same, second] at first
    exact (Option.some.inj first).symm
  cases one
  rw [Except.ok.inj (isA.symm.trans isB)]

/-- **When names determine plaintexts.** -/
theorem functional_iff {req : ComputeRequest}
    (ok : (e.prepareRequest px now later protoBytes secrets publicKey metadata w).2 = .ok req) :
    Functional (req.namedPlaintexts plaintext) ↔
      e.CacheAgrees px.toCrypto plaintext now publicKey metadata.workflowOwner secrets := by
  obtain ⟨input, found, _, rfl, fetched⟩ := prepareRequest_ok ok
  change Functional ((secrets.data.map (·.key)).zip
    (found.encryptedSecrets.data.map plaintext)) ↔ _
  rcases getEncryptedDecryptionShares_ok fetched with
    ⟨empty, _⟩ | ⟨entries, served, isFound⟩ | ⟨missed, out, _, evaluated⟩
  · have none_ : secrets.data = [] := List.length_eq_zero_iff.mp empty
    unfold Executor.CacheAgrees
    rw [none_]
    refine iff_of_true (fun name v v' member => ?_) fun entries _ a among => ?_
    · cases member
    · cases among
  · have plaintexts : found.encryptedSecrets.data.map plaintext =
        entries.data.map fun entry => plaintext entry.encryptedSecret := by
      rw [isFound]
      exact List.map_map
    rw [plaintexts, functional_zip_iff]
    constructor
    · intro agree entries' served'
      cases served.symm.trans served'
      exact agree
    · intro agree
      exact agree entries served
  · refine iff_of_true (evaluate_functional evaluated) fun entries served => ?_
    cases missed.symm.trans served

end

/-! ## What the app gets -/

/-- At each index, the plaintext of the ciphertext is found under the name. -/
def ComputeRequest.Delivered (plaintext : Slice UInt8 → Slice UInt8) (req : ComputeRequest)
    (secretsMap : Secrets) : Prop :=
  ∀ (i : Nat) name ciphertext, req.ciphertextNames.data[i]? = some name →
    req.ciphertexts.data[i]? = some ciphertext →
      secretsMap.lookup name = some (plaintext ciphertext)

theorem delivered_iff {plaintext : Slice UInt8 → Slice UInt8} {req : ComputeRequest} :
    req.Delivered plaintext (storeAll ∅ (req.namedPlaintexts plaintext)) ↔
      Functional (req.namedPlaintexts plaintext) := by
  rw [Functional, ← lookup_storeAll_iff]
  constructor
  · intro delivered name v member
    obtain ⟨i, at_⟩ := List.mem_iff_getElem?.mp member
    obtain ⟨nameAt, valueAt⟩ := List.getElem?_zip_eq_some.mp at_
    rw [List.getElem?_map] at valueAt
    obtain ⟨ciphertext, ciphertextAt, rfl⟩ := Option.map_eq_some_iff.mp valueAt
    exact delivered i name ciphertext nameAt ciphertextAt
  · intro found i name ciphertext nameAt ciphertextAt
    refine found name _ (List.mem_iff_getElem?.mpr ⟨i, List.getElem?_zip_eq_some.mpr ⟨nameAt, ?_⟩⟩)
    rw [List.getElem?_map, ciphertextAt]
    rfl

/-- **Every requested secret gets to the app** exactly when the secrets that were served from
the executor's cache and have one key have one plaintext. This is said of every request that
the executor makes, for any secrets, and of every goroutine of a reachable enclave that has
the hash of that request and is inside the app. -/
theorem requested_secrets_delivered (p : Platform) (plaintext : Slice UInt8 → Slice UInt8)
    (decrypts : p.Decrypts plaintext) (hexToAddress : GoString → GoString)
    (cap : Slice UInt8 → Nat) (e : Executor) (now later : Int) (protoBytes : Option (Slice UInt8))
    (secrets : Slice SecretIdentifier) (publicKey : Slice UInt8) (metadata : RequestMetadata)
    (w : VaultWorld) (req : ComputeRequest)
    (prepared : (e.prepareRequest ⟨p.toCrypto, hexToAddress, cap⟩ now later protoBytes secrets
      publicKey metadata w).2 = .ok req)
    (config : EnclaveConfig) (allowReconfig appConfigurable : Bool) (keychain : BoxKeychain)
    (start : Int) (ls : List EnclaveLabel) (s : EnclaveServer)
    (run : Run (EnclaveServer.step p) anyStep
      (.newEnclaveServer config allowReconfig appConfigurable keychain start) ls s)
    (id : Nat) (call : ExecCall) (found : s.calls.lookup id = some call) (secretsMap : Secrets)
    (running : call.pc = .running secretsMap) (same : call.hash = req.hash p.toCrypto)
    (collisionFree : p.toCrypto.CollisionFree {call.req.preimage, req.preimage}) :
    call.req.Delivered plaintext secretsMap ↔
      e.CacheAgrees p.toCrypto plaintext now publicKey metadata.workflowOwner secrets := by
  have hash : call.req.hash p.toCrypto = call.hash :=
    (Checked.of_run run).hashes id call found call.req List.mem_cons_self
  have texts : call.req.preimage = req.preimage :=
    collisionFree _ (Or.inl rfl) _ (Or.inr rfl) (hash.trans same)
  have body := (ComputeRequest.preimage_eq_iff.mp texts).1
  have entries : call.req.namedPlaintexts plaintext = req.namedPlaintexts plaintext := by
    unfold ComputeRequest.namedPlaintexts
    rw [body.ciphertextNames, body.ciphertexts]
  rw [(running_secrets decrypts run found running).2, delivered_iff, entries]
  exact functional_iff prepared

namespace Sample

def executorPlatform : ExecutorPlatform := ⟨crypto, fun owner => owner, Slice.length⟩

/-- An executor that keeps secrets, and has none yet. -/
def executor : Executor where
  capabilityID := request.appID
  confidentialComputeVersion := request.version
  enableSecretsCache := true
  vaultInitialized := true
  cryptographyThreshold := 1
  secretsCache := Cache.newCache defaultCacheTTL

def metadata : RequestMetadata := ⟨request.applicationRequestID, ∅, ∅, ∅, 0⟩

/-- The secret with the key `k` in the namespace that consists of one byte. -/
def secretOf (n : UInt8) : SecretIdentifier := ⟨secretKey, one n⟩

/-- The vault's response for a secret whose ciphertext is one byte. -/
def responseOf (id : Vault.SecretIdentifier) (n : UInt8) : Vault.SecretResponse :=
  let value : GoString := ⟨Hex.encode [n], Nat.lt_of_le_of_lt (Nat.le_refl 2) (by decide)⟩
  ⟨some id, ∅, some ⟨value, one ⟨one (signer 6), ∅⟩⟩⟩

def vaultAnswering (responses : Slice Vault.SecretResponse) : VaultWorld where
  marshalError := none
  propagateOrgID := false
  binding := .disabled
  answer := .response ⟨responses, ∅⟩

def vaultHolds (n : UInt8) : VaultWorld := vaultAnswering (one (responseOf ⟨secretKey, ∅, ∅⟩ n))

/-- One attempt for the given secrets under the keypair of the sample server. -/
def attempt (e : Executor) (secrets : Slice SecretIdentifier) (w : VaultWorld) :
    Executor × Outcome ExecutorError ComputeRequest :=
  e.prepareRequest executorPlatform 0 0 (some ∅) secrets (signer 9) metadata w

/-- The executor has fetched the secrets of two namespaces, one after the other. -/
def filledExecutor : Executor :=
  (attempt (attempt executor (one (secretOf 1)) (vaultHolds 1)).1 (one (secretOf 2))
    (vaultHolds 2)).1

def bothSecrets : Slice SecretIdentifier := ⟨[secretOf 1, secretOf 2], by decide⟩

/-- The secrets with the keys `k` and `l`, each in a namespace of its own. -/
def twoKeys : Slice SecretIdentifier := ⟨[secretOf 1, ⟨otherKey, one 2⟩], by decide⟩

/-- The vault answers for both of them, in the other order. -/
def vaultHoldsBoth : VaultWorld :=
  vaultAnswering ⟨[responseOf ⟨otherKey, one 2, ∅⟩ 2,
    responseOf ⟨secretKey, one 1, ∅⟩ 1], by decide⟩

/-- The request arrives at the enclave, signed by one signer, and gets to the app. -/
def requestLabels (req : ComputeRequest) : List EnclaveLabel :=
  let signed : SignedComputeRequest :=
    { req with signature := sign 1 (requestPayload crypto (req.hash crypto)) }
  [keyGenerated, label 0 (.arrive 0 .post (.batch [signed]))] ++ List.replicate 5 (proceed 0 0)

def secretsOf : ExecPC → Option Secrets
  | .running secrets => some secrets
  | _ => none

def servesRequest (req : ComputeRequest) (P : Secrets → Prop) [DecidablePred P]
    (s : EnclaveServer) : Bool :=
  (s.calls.lookup 0).any fun call => decide (call.req.toComputeRequest = req ∧
    call.hash = req.hash crypto) && (secretsOf call.pc).any fun secrets => decide (P secrets)

theorem call_of_servesRequest {req : ComputeRequest} {P : Secrets → Prop} [DecidablePred P]
    {s : EnclaveServer} (serves : servesRequest req P s = true) :
    ∃ call secrets, s.calls.lookup 0 = some call ∧ call.req.toComputeRequest = req ∧
      call.hash = req.hash crypto ∧ call.pc = .running secrets ∧ P secrets := by
  obtain ⟨call, found, facts⟩ := (Option.any_eq_true _ _).mp serves
  obtain ⟨isRequest, secretsMap⟩ := (Bool.and_eq_true _ _).mp facts
  obtain ⟨secrets, isMap, holds⟩ := (Option.any_eq_true _ _).mp secretsMap
  have running : call.pc = .running secrets := by
    generalize call.pc = pc at isMap
    cases pc with
    | running secrets' => exact congrArg ExecPC.running (Option.some.inj isMap)
    | _ => cases isMap
  obtain ⟨isReq, hash⟩ := of_decide_eq_true isRequest
  exact ⟨call, secrets, found, isReq, hash, running, of_decide_eq_true holds⟩

end Sample

section

open Sample

/-- Two secrets that the vault has just sent get to the app. -/
theorem requested_secrets_delivered_from_vault :
    ∃ req s call secretsMap, (attempt executor twoKeys vaultHoldsBoth).2 = .ok req ∧
      Run (EnclaveServer.step platform) anyStep (server 0) (requestLabels req) s ∧
      s.calls.lookup 0 = some call ∧ call.pc = .running secretsMap ∧
      call.req.ciphertexts.data = [one 1, one 2] ∧ call.req.Delivered id secretsMap := by
  let req := executor.computeRequest crypto ∅ twoKeys (signer 9) metadata
    ⟨⟨[one 1, one 2], by decide⟩, ⟨[one (signer 6), one (signer 6)], by decide⟩, ∅⟩
  have prepared : (attempt executor twoKeys vaultHoldsBoth).2 = .ok req := by
    decide +kernel
  have reached : ∃ s, Run (EnclaveServer.step platform) anyStep (server 0) (requestLabels req) s ∧
      servesRequest req (fun _ => True) s = true :=
    Run.exists_of_exec (by decide +kernel)
  obtain ⟨s, run, serves⟩ := reached
  obtain ⟨call, secretsMap, found, isReq, hash, running, _⟩ := call_of_servesRequest serves
  refine ⟨req, s, call, secretsMap, prepared, run, found, running, by rw [isReq]; rfl, ?_⟩
  refine (requested_secrets_delivered platform id Sample.decrypts _ _ executor 0 0 _ _ _ _ _ req
    prepared (config 0) false false _ 0 _ s run 0 call found secretsMap running hash ?_).mpr ?_
  · have text : call.req.preimage = req.preimage := congrArg ComputeRequest.preimage isReq
    exact Crypto.collisionFree_pair text
  · intro entries served
    cases served

/-- Two secrets with one key have been fetched one after the other. Requested together, they
are served from the cache, and the app gets the second under the name of both. -/
theorem requested_secret_replaced :
    ∃ req s call secretsMap, (attempt filledExecutor bothSecrets (vaultHolds 0)).2 = .ok req ∧
      Run (EnclaveServer.step platform) anyStep (server 0) (requestLabels req) s ∧
      s.calls.lookup 0 = some call ∧ call.pc = .running secretsMap ∧
      call.hash = req.hash crypto ∧ ¬ call.req.Delivered id secretsMap := by
  let req := executor.computeRequest crypto ∅ bothSecrets (signer 9) metadata
    ⟨⟨[one 1, one 2], by decide⟩, ⟨[one (signer 6), one (signer 6)], by decide⟩, ∅⟩
  have prepared : (attempt filledExecutor bothSecrets (vaultHolds 0)).2 = .ok req := by
    decide +kernel
  have reached : ∃ s, Run (EnclaveServer.step platform) anyStep (server 0) (requestLabels req) s ∧
      servesRequest req (fun secrets => secrets.lookup secretKey = some (one 2)) s = true :=
    Run.exists_of_exec (by decide +kernel)
  obtain ⟨s, run, serves⟩ := reached
  obtain ⟨call, secretsMap, found, isReq, hash, running, replaced⟩ :=
    call_of_servesRequest serves
  refine ⟨req, s, call, secretsMap, prepared, run, found, running, hash, fun delivered => ?_⟩
  rw [isReq] at delivered
  have first : secretsMap.lookup secretKey = some (one 1) := delivered 0 secretKey (one 1) rfl rfl
  rw [replaced] at first
  exact absurd first (by decide)

end

end ConfidentialCompute
