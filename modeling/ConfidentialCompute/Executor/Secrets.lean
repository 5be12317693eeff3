import ConfidentialCompute.Cache
import ConfidentialCompute.Lib.TextCodec
import ConfidentialCompute.Types

/-!
# The executor's secrets

`GetEncryptedDecryptionShares` of `capabilities/framework/executor.go`: the ciphertexts and
the encrypted decryption shares of the secrets of a request, from the executor's cache when
all of them are there, from the vault DON otherwise. The vault's answers are matched with the
requests by the key of the secret alone.

One call is split where it touches what others share: it reads the cache (`cachedBatch`), it
asks the vault (`vaultRequest`), it evaluates the answer (`evaluate`), and it stores what it
got (`cacheSecrets`).
-/

namespace ConfidentialCompute

open Go

/-! ## Messages -/

/-- `framework.SecretIdentifier`. -/
structure SecretIdentifier where
  key : GoString
  secretNamespace : GoString
deriving DecidableEq

namespace Vault

/-- `vault.SecretIdentifier`. -/
structure SecretIdentifier where
  key : GoString
  secretNamespace : GoString
  owner : GoString
deriving DecidableEq

structure SecretRequest where
  id : SecretIdentifier
  encryptionKeys : List Bytes
deriving DecidableEq

structure EncryptedShares where
  binaryShares : Slice (Slice UInt8)
  shares : Slice GoString
deriving DecidableEq

structure SecretData where
  encryptedValue : GoString
  encryptedDecryptionKeyShares : Slice EncryptedShares
deriving DecidableEq

structure SecretResponse where
  id : Option SecretIdentifier
  error : GoString
  data : Option SecretData
deriving DecidableEq

/-- `GetId().GetKey()`. -/
def SecretResponse.key (resp : SecretResponse) : GoString :=
  match resp.id with
  | none => ∅
  | some id => id.key

structure GetSecretsResponse where
  responses : Slice SecretResponse
  rawVaultPublicKey : GoString
deriving DecidableEq

end Vault

/-- The fields of `capabilities.RequestMetadata` that the executor reads or changes. -/
structure RequestMetadata where
  workflowExecutionID : GoString
  workflowOwner : GoString
  referenceID : GoString
  orgID : GoString
  workflowDonID : UInt32
deriving DecidableEq

/-- The request that is passed to the vault capability. -/
structure VaultRequest where
  requests : Slice Vault.SecretRequest
  metadata : RequestMetadata
deriving DecidableEq

/-- The codes of user errors in `caperrors`: those that the executor gives, and others that come
with an error of the vault capability. -/
inductive UserErrorCode where
  | invalidArgument
  | deadlineExceeded
  | other (code : Nat)
deriving DecidableEq

structure ExecutorError where
  text : Bytes
  userCode : Option UserErrorCode
deriving DecidableEq

/-- `fmt.Errorf`. -/
def errorf (text : Bytes) : ExecutorError := ⟨text, none⟩

/-- `fmt.Errorf("..: %w", err)`. A user error is found under what wraps it. -/
def ExecutorError.wrap (err : ExecutorError) (text : Bytes) : ExecutorError :=
  { err with text := text ++ err.text }

def errVaultSystemErrorFallback : Bytes := ascii "failed to handle get secret request"

/-! ## State -/

structure CachedEDKS where
  encryptedSecret : Slice UInt8
  encryptedDecryptionShares : Slice (Slice UInt8)
  rawVaultPublicKey : Slice UInt8
deriving DecidableEq

/-- The fields of `RealExecutor` that a request depends on. -/
structure Executor where
  capabilityID : GoString
  confidentialComputeVersion : GoString
  enableSecretsCache : Bool
  /-- `vaultDON.Capability` is not nil. -/
  vaultInitialized : Bool
  cryptographyThreshold : Int
  secretsCache : Cache Bytes32 CachedEDKS

def defaultCacheTTL : Int := 24 * hour

/-- What is returned on success. -/
structure EncryptedSecrets where
  encryptedSecrets : Slice (Slice UInt8)
  encryptedDecryptionShares : Slice (Slice (Slice UInt8))
  rawVaultPublicKey : Slice UInt8
deriving DecidableEq

/-- What is returned when no secrets are required. -/
def noSecrets : EncryptedSecrets := ⟨∅, ∅, ∅⟩

/-! ## The cache -/

/-- The text that `generateSecretCacheKey` hashes. -/
def secretCacheText (enclaveEphemeralPublicKey : Slice UInt8) (secret : SecretIdentifier)
    (workflowOwner : GoString) : Bytes :=
  Hex.encode enclaveEphemeralPublicKey.data ++ ascii "-" ++ secret.key.data ++ ascii "-" ++
    secret.secretNamespace.data ++ ascii "-" ++ workflowOwner.data

def generateSecretCacheKey (crypto : Crypto) (enclaveEphemeralPublicKey : Slice UInt8)
    (secret : SecretIdentifier) (workflowOwner : GoString) : Bytes32 :=
  crypto.sha256 (secretCacheText enclaveEphemeralPublicKey secret workflowOwner)

/-- Every entry has the key of the first one. -/
def cachedPublicKeysMatch : List CachedEDKS → Bool
  | [] => true
  | first :: rest => (first :: rest).all fun entry =>
      decide (entry.rawVaultPublicKey = first.rawVaultPublicKey)

/-- All entries agree on the key, so it is that of the first one. -/
def fromCache (entries : Slice CachedEDKS) : EncryptedSecrets where
  encryptedSecrets := entries.map (·.encryptedSecret)
  encryptedDecryptionShares := entries.map (·.encryptedDecryptionShares)
  rawVaultPublicKey := (entries.data.head?.map (·.rawVaultPublicKey)).getD ∅

namespace Executor

/-- The entry of one secret. -/
def cached (crypto : Crypto) (e : Executor) (now : Int) (publicKey : Slice UInt8)
    (workflowOwner : GoString) (secret : SecretIdentifier) : Option CachedEDKS :=
  e.secretsCache.get now (generateSecretCacheKey crypto publicKey secret workflowOwner)

/-- The entries of all secrets, if every secret has one and all of them come from one key. -/
def cachedBatch (crypto : Crypto) (e : Executor) (now : Int) (publicKey : Slice UInt8)
    (workflowOwner : GoString) (secrets : Slice SecretIdentifier) : Option (Slice CachedEDKS) :=
  if e.enableSecretsCache then
    let entries : Except Unit (Slice CachedEDKS) := secrets.traverse fun secret =>
      match e.cached crypto now publicKey workflowOwner secret with
      | none => .error ()
      | some entry => .ok entry
    match entries with
    | .error () => none
    | .ok entries => if cachedPublicKeysMatch entries.data then some entries else none
  else none

/-- What was retrieved is kept for next time. -/
def cacheSecrets (crypto : Crypto) (e : Executor) (now : Int) (publicKey : Slice UInt8)
    (workflowOwner : GoString) (secrets : Slice SecretIdentifier) (found : EncryptedSecrets) :
    Executor :=
  if e.enableSecretsCache then
    let material := found.encryptedSecrets.data.zip found.encryptedDecryptionShares.data
    { e with
      secretsCache := (secrets.data.zip material).foldl
        (fun cache entry =>
          cache.set now (generateSecretCacheKey crypto publicKey entry.1 workflowOwner)
            ⟨entry.2.1, entry.2.2, found.rawVaultPublicKey⟩ none)
        e.secretsCache }
  else e

end Executor

/-! ## The request to the vault -/

/-- What `applyWorkflowDONBindingToVault` learns from the settings and the registry. -/
inductive DONBinding where
  | settingUnreadable (err : Bytes)
  | disabled
  | localNodeUnknown (err : Bytes)
  | bound (workflowDonID : UInt32)

/-- The end of a call of the vault capability, whose error may be a user error. -/
inductive VaultAnswer where
  | failed (err : ExecutorError)
  | unreadable (err : Bytes)
  | response (out : Vault.GetSecretsResponse)

/-- What the executor learns from outside in one call. -/
structure VaultWorld where
  /-- The error of `anypb.New`. -/
  marshalError : Option Bytes
  propagateOrgID : Bool
  binding : DONBinding
  answer : VaultAnswer

/-- SHA-256, `common.HexToAddress(_).String()`, and `cap` of the slice that an ephemeral key has
been decoded into. -/
structure ExecutorPlatform extends Crypto where
  hexToAddress : GoString → GoString
  cap : Slice UInt8 → Nat

def applyPropagatedOrgIDToVault (w : VaultWorld) (metadata : RequestMetadata) :
    RequestMetadata :=
  if w.propagateOrgID then metadata else { metadata with orgID := ∅ }

def applyWorkflowDONBindingToVault (w : VaultWorld) (metadata : RequestMetadata) :
    Except ExecutorError RequestMetadata :=
  match w.binding with
  | .settingUnreadable err =>
      .error (errorf
        (ascii "failed to read RemoteExecutableWorkflowDONBindingEnabled setting: " ++ err))
  | .disabled => .ok metadata
  | .localNodeUnknown err =>
      .error (errorf (ascii "failed to get local node for VaultDON request metadata: " ++ err))
  | .bound workflowDonID => .ok { metadata with workflowDonID := workflowDonID }

def secretRequests (px : ExecutorPlatform) (publicKey : Slice UInt8) (workflowOwner : GoString)
    (secrets : Slice SecretIdentifier) : Slice Vault.SecretRequest :=
  secrets.map fun secret =>
    ⟨⟨secret.key, secret.secretNamespace, px.hexToAddress workflowOwner⟩,
      [Hex.encode publicKey.data]⟩

/-- The request that is sent, if it can be put together. -/
def vaultRequest (px : ExecutorPlatform) (publicKey : Slice UInt8) (metadata : RequestMetadata)
    (secrets : Slice SecretIdentifier) (w : VaultWorld) : Except ExecutorError VaultRequest :=
  match w.marshalError with
  | some err =>
      .error (errorf (ascii "failed to marshal VaultDON request payload to Any: " ++ err))
  | none => do
      let vaultMetadata ←
        applyWorkflowDONBindingToVault w (applyPropagatedOrgIDToVault w metadata)
      return ⟨secretRequests px publicKey metadata.workflowOwner secrets, vaultMetadata⟩

/-! ## The vault's answer -/

def decodeVaultPublicKey (raw : GoString) : Except ExecutorError (Slice UInt8) :=
  if raw.length = 0 then .ok ∅
  else
    match Hex.decodeString raw with
    | .error e =>
        .error (errorf
          (ascii "failed to decode RawVaultPublicKey from VaultDON response: " ++ e.text))
    | .ok key => .ok key

/-- An error that is not the vault's fallback text is the user's. -/
def vaultError (responseIndex : Nat) (resp : Vault.SecretResponse) : ExecutorError :=
  let text := ascii "VaultDON returned an error for secret request at index " ++
    decimal responseIndex ++ ascii " with key " ++ resp.key.data ++ ascii ": " ++ resp.error.data
  if resp.error.data = errVaultSystemErrorFallback then ⟨text, none⟩
  else ⟨text, some .invalidArgument⟩

/-- The loop over the responses: no error, a key each, and no key twice. -/
def checkResponses (seenKeys : List GoString) (responseIndex : Nat) :
    List Vault.SecretResponse → Except ExecutorError Unit
  | [] => .ok ()
  | resp :: rest =>
      if resp.error.length ≠ 0 then .error (vaultError responseIndex resp)
      else if resp.key.length = 0 then
        .error (errorf (ascii "VaultDON response at index " ++ decimal responseIndex ++
          ascii " is missing a valid secret identifier"))
      else if resp.key ∈ seenKeys then
        .error (errorf (ascii "duplicate VaultDON response for secret key " ++ resp.key.data ++
          ascii " at index " ++ decimal responseIndex))
      else checkResponses (seenKeys ++ [resp.key]) (responseIndex + 1) rest

/-- The first response with the key of the request. Namespace and owner are not compared. -/
def matchingResponse (responses : List Vault.SecretResponse) (req : Vault.SecretRequest) :
    Except ExecutorError Vault.SecretResponse :=
  match responses.find? fun resp => resp.key = req.id.key with
  | some resp => .ok resp
  | none =>
      .error (errorf (ascii "no response from VaultDON for secret with key " ++ req.id.key.data ++
        ascii ", namespace " ++ req.id.secretNamespace.data ++ ascii ", owner " ++
        req.id.owner.data))

/-- Binary shares take precedence over hexadecimal ones. -/
def decodeShares (key : GoString) (shares : Vault.EncryptedShares) :
    Except ExecutorError (Slice (Slice UInt8)) :=
  if 0 < shares.binaryShares.length then .ok shares.binaryShares
  else if 0 < shares.shares.length then
    shares.shares.traverse fun share =>
      match Hex.decodeString share with
      | .error e =>
          .error (errorf (ascii "failed to decode hex-encoded share for secret " ++ key.data ++
            ascii ": " ++ e.text))
      | .ok bytes => .ok bytes
  else
    .error (errorf (ascii "no decryption shares found for secret " ++ key.data ++
      ascii ": neither binary nor hex-encoded shares present"))

/-- The ciphertext and the shares of one response. -/
def secretMaterial (threshold : Int) (resp : Vault.SecretResponse) :
    Except ExecutorError (Slice UInt8 × Slice (Slice UInt8)) :=
  match resp.data with
  | none =>
      .error (errorf (ascii "VaultDON returned no data for secret " ++ resp.key.data))
  | some data =>
      match Hex.decodeString data.encryptedValue with
      | .error e =>
          .error (errorf (ascii "failed to decode hex-encoded ciphertext for secret " ++
            resp.key.data ++ ascii ": " ++ e.text))
      | .ok encryptedSecret =>
          match data.encryptedDecryptionKeyShares.data with
          | [set] => do
              let shares ← decodeShares resp.key set
              if shares.length < threshold then
                .error (errorf (ascii "not enough encrypted decryption key shares for secret " ++
                  resp.key.data ++ ascii ", expected at least " ++ ascii (toString threshold) ++
                  ascii ", got " ++ decimal shares.length))
              else return (encryptedSecret, shares)
          | sets =>
              .error (errorf (ascii
                "expected exactly one set of encrypted decryption key shares for secret " ++
                resp.key.data ++ ascii ", got " ++ decimal sets.length))

/-- What is taken from the vault's answer. -/
def evaluate (threshold : Int) (requests : Slice Vault.SecretRequest)
    (out : Vault.GetSecretsResponse) : Except ExecutorError EncryptedSecrets := do
  let rawVaultPublicKey ← decodeVaultPublicKey out.rawVaultPublicKey
  checkResponses [] 0 out.responses.data
  let ordered ← requests.traverse (matchingResponse out.responses.data)
  let material ← ordered.traverse (secretMaterial threshold)
  return ⟨material.map (·.1), material.map (·.2), rawVaultPublicKey⟩

def VaultAnswer.evaluate (threshold : Int) (requests : Slice Vault.SecretRequest) :
    VaultAnswer → Except ExecutorError EncryptedSecrets
  | .failed err => .error (err.wrap (ascii "failed to execute VaultDON capability: "))
  | .unreadable err =>
      .error (errorf (ascii "failed to unmarshal VaultDON response payload: " ++ err))
  | .response out => ConfidentialCompute.evaluate threshold requests out

/-! ## The call -/

/-- What a call leaves behind, what it has sent to the vault, and what it returns. -/
structure FetchResult where
  executor : Executor
  sent : Option VaultRequest
  result : Outcome ExecutorError EncryptedSecrets

/-- `key[:8]`, for a line of the log, is within the capacity of the slice. -/
def ExecutorPlatform.loggable (px : ExecutorPlatform) (publicKey : Slice UInt8) : Bool :=
  8 ≤ px.cap publicKey

/-- The cache is read at `now` and written at `later`. -/
def Executor.getEncryptedDecryptionShares (px : ExecutorPlatform) (e : Executor)
    (now later : Int) (secrets : Slice SecretIdentifier) (publicKey : Slice UInt8)
    (metadata : RequestMetadata) (w : VaultWorld) : FetchResult :=
  if px.loggable publicKey = false then ⟨e, none, .panicked⟩
  else if secrets.length = 0 then ⟨e, none, .ok noSecrets⟩
  else if ¬ e.vaultInitialized then
    ⟨e, none, .err (errorf (ascii "VaultDON capability is not initialized"))⟩
  else
    match e.cachedBatch px.toCrypto now publicKey metadata.workflowOwner secrets with
    | some entries => ⟨e, none, .ok (fromCache entries)⟩
    | none =>
        match vaultRequest px publicKey metadata secrets w with
        | .error err => ⟨e, none, .err err⟩
        | .ok request =>
            match w.answer.evaluate e.cryptographyThreshold request.requests with
            | .error err => ⟨e, some request, .err err⟩
            | .ok found =>
                ⟨e.cacheSecrets px.toCrypto later publicKey metadata.workflowOwner secrets found,
                  some request, .ok found⟩

/-! ## What is returned -/

section

variable {px : ExecutorPlatform} {crypto : Crypto} {e : Executor} {now later : Int}
  {secrets : Slice SecretIdentifier} {publicKey : Slice UInt8} {workflowOwner : GoString}
  {metadata : RequestMetadata} {w : VaultWorld}

/-- What an evaluated answer has passed. What is returned for a request is the material of the
first response with its key. -/
theorem evaluate_ok {threshold : Int} {requests : Slice Vault.SecretRequest}
    {out : Vault.GetSecretsResponse} {found : EncryptedSecrets}
    (ok : evaluate threshold requests out = .ok found) :
    decodeVaultPublicKey out.rawVaultPublicKey = .ok found.rawVaultPublicKey ∧
      checkResponses [] 0 out.responses.data = .ok () ∧
      ∃ material : Slice (Slice UInt8 × Slice (Slice UInt8)),
        List.Forall₂ (fun req entry => ∃ resp,
          matchingResponse out.responses.data req = .ok resp ∧
            secretMaterial threshold resp = .ok entry) requests.data material.data ∧
        found.encryptedSecrets = material.map (·.1) ∧
        found.encryptedDecryptionShares = material.map (·.2) := by
  unfold evaluate at ok
  obtain ⟨key, decoded, ok⟩ := bind_ok_iff.mp ok
  obtain ⟨_, checked, ok⟩ := bind_ok_iff.mp ok
  obtain ⟨ordered, matched, ok⟩ := bind_ok_iff.mp ok
  obtain ⟨material, taken, ok⟩ := bind_ok_iff.mp ok
  cases ok
  exact ⟨decoded, checked, material,
    forall₂_comp (Slice.traverse_ok matched) (Slice.traverse_ok taken), rfl, rfl⟩

theorem matchingResponse_ok {responses : List Vault.SecretResponse} {req : Vault.SecretRequest}
    {resp : Vault.SecretResponse} (ok : matchingResponse responses req = .ok resp) :
    responses.find? (fun resp => resp.key = req.id.key) = some resp := by
  unfold matchingResponse at ok
  split at ok
  · rename_i found
    cases ok
    exact found
  · cases ok

theorem requests_vaultRequest {request : VaultRequest}
    (ok : vaultRequest px publicKey metadata secrets w = .ok request) :
    request.requests = secretRequests px publicKey metadata.workflowOwner secrets := by
  unfold vaultRequest at ok
  split at ok
  · cases ok
  · obtain ⟨_, _, ok⟩ := bind_ok_iff.mp ok
    cases ok
    rfl

theorem response_of_evaluate {threshold : Int} {requests : Slice Vault.SecretRequest}
    {answer : VaultAnswer} {found : EncryptedSecrets}
    (ok : answer.evaluate threshold requests = .ok found) :
    ∃ out, answer = .response out ∧ evaluate threshold requests out = .ok found := by
  cases answer with
  | failed err => cases ok
  | unreadable err => cases ok
  | response out => exact ⟨out, rfl, ok⟩

/-- What a call returns has been cached, or is the vault's, unless there are no secrets. -/
theorem getEncryptedDecryptionShares_ok {found : EncryptedSecrets}
    (ok : (e.getEncryptedDecryptionShares px now later secrets publicKey metadata w).result =
      .ok found) :
    (secrets.length = 0 ∧ found = noSecrets) ∨
      (∃ entries, e.cachedBatch px.toCrypto now publicKey metadata.workflowOwner secrets =
        some entries ∧ found = fromCache entries) ∨
      (e.cachedBatch px.toCrypto now publicKey metadata.workflowOwner secrets = none ∧
        ∃ out, w.answer = .response out ∧ evaluate e.cryptographyThreshold
          (secretRequests px publicKey metadata.workflowOwner secrets) out = .ok found) := by
  unfold Executor.getEncryptedDecryptionShares at ok
  split at ok
  · cases ok
  · split at ok
    · rename_i empty
      exact Or.inl ⟨empty, (Outcome.ok.inj ok).symm⟩
    · refine Or.inr ?_
      split at ok
      · cases ok
      · split at ok
        · rename_i entries served
          exact Or.inl ⟨entries, served, (Outcome.ok.inj ok).symm⟩
        · rename_i missed
          refine Or.inr ⟨missed, ?_⟩
          split at ok
          · cases ok
          · rename_i request asked
            rw [← requests_vaultRequest asked]
            split at ok
            · cases ok
            · rename_i found' evaluated
              cases ok
              exact response_of_evaluate evaluated

end

end ConfidentialCompute
