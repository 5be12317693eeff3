import ConfidentialCompute.Executor.Request

/-!
# Which response of the vault answers which request

The executor asks the vault for secrets by key, namespace and owner. Of the answer it checks
that no key occurs twice, and then takes for each request the response with its key; neither
loop looks at the namespace or the owner of a response.
-/

namespace ConfidentialCompute

open Go

/-- The ciphertext and the shares are what the response holds. -/
def Vault.SecretResponse.Holds (resp : Vault.SecretResponse) (ciphertext : Slice UInt8)
    (shares : Slice (Slice UInt8)) : Prop :=
  ∃ data set, resp.data = some data ∧ Hex.decodeString data.encryptedValue = .ok ciphertext ∧
    data.encryptedDecryptionKeyShares.data = [set] ∧ decodeShares resp.key set = .ok shares

/-- There is a ciphertext and a list of shares for each request, and they are held by a
response with the key, the namespace and the owner of the request. -/
def Matched (requests : Slice Vault.SecretRequest) (out : Vault.GetSecretsResponse)
    (found : EncryptedSecrets) : Prop :=
  ∀ (i : Nat) (req : Vault.SecretRequest), requests.data[i]? = some req →
    ∃ ciphertext shares, found.encryptedSecrets.data[i]? = some ciphertext ∧
      found.encryptedDecryptionShares.data[i]? = some shares ∧
      ∃ resp ∈ out.responses, resp.id = some req.id ∧ resp.Holds ciphertext shares

/-- The responses with the key of a request have its namespace and its owner too. -/
def IdentifiedByKey (requests : Slice Vault.SecretRequest) (out : Vault.GetSecretsResponse) :
    Prop :=
  ∀ req ∈ requests, ∀ resp ∈ out.responses, ∀ id, resp.id = some id → id.key = req.id.key →
    id.secretNamespace = req.id.secretNamespace ∧ id.owner = req.id.owner

/-- The first loop accepts the responses that have no error and a key each, no two the same. -/
theorem checkResponses_ok_iff {responses : List Vault.SecretResponse} {seenKeys : List GoString}
    {i : Nat} :
    checkResponses seenKeys i responses = .ok () ↔
      (∀ resp ∈ responses, resp.error.length = 0 ∧ resp.key.length ≠ 0 ∧ resp.key ∉ seenKeys) ∧
        (responses.map (·.key)).Nodup := by
  induction responses generalizing seenKeys i with
  | nil => simp [checkResponses]
  | cons resp rest ih =>
      rw [List.forall_mem_cons, List.map_cons, List.nodup_cons]
      unfold checkResponses
      by_cases failed : resp.error.length ≠ 0
      · rw [if_pos failed]
        exact ⟨nofun, fun ⟨⟨first, _⟩, _⟩ => (failed first.1).elim⟩
      · rw [if_neg failed]
        by_cases unnamed : resp.key.length = 0
        · rw [if_pos unnamed]
          exact ⟨nofun, fun ⟨⟨first, _⟩, _⟩ => (first.2.1 unnamed).elim⟩
        · rw [if_neg unnamed]
          by_cases seen : resp.key ∈ seenKeys
          · rw [if_pos seen]
            exact ⟨nofun, fun ⟨⟨first, _⟩, _⟩ => (first.2.2 seen).elim⟩
          · rw [if_neg seen, ih]
            simp only [List.mem_append, List.mem_singleton, not_or, List.mem_map, not_exists]
            constructor
            · rintro ⟨later, nodup⟩
              refine ⟨⟨⟨not_not.mp failed, unnamed, seen⟩, fun other among => ?_⟩,
                fun other ⟨among, same⟩ => ?_, nodup⟩
              · obtain ⟨noError, named, unseen, _⟩ := later other among
                exact ⟨noError, named, unseen⟩
              · exact (later other among).2.2.2 same
            · rintro ⟨⟨_, later⟩, fresh, nodup⟩
              refine ⟨fun other among => ?_, nodup⟩
              obtain ⟨noError, named, unseen⟩ := later other among
              exact ⟨noError, named, unseen, fun same => fresh other ⟨among, same⟩⟩

/-- After the first loop every response has an identifier, and no two have the same key. -/
theorem checkResponses_ok {responses : List Vault.SecretResponse} {seenKeys : List GoString}
    {i : Nat} (ok : checkResponses seenKeys i responses = .ok ()) :
    (∀ resp ∈ responses, resp.id ≠ none ∧ resp.key ∉ seenKeys) ∧
      (responses.map (·.key)).Nodup := by
  obtain ⟨each, nodup⟩ := checkResponses_ok_iff.mp ok
  refine ⟨fun resp among => ?_, nodup⟩
  obtain ⟨_, named, unseen⟩ := each resp among
  refine ⟨fun missing => named ?_, unseen⟩
  unfold Vault.SecretResponse.key
  rw [missing]
  rfl

theorem key_of_id {resp : Vault.SecretResponse} {id : Vault.SecretIdentifier}
    (isID : resp.id = some id) : resp.key = id.key := by
  unfold Vault.SecretResponse.key
  rw [isID]

theorem secretMaterial_ok {threshold : Int} {resp : Vault.SecretResponse}
    {entry : Slice UInt8 × Slice (Slice UInt8)} (ok : secretMaterial threshold resp = .ok entry) :
    resp.Holds entry.1 entry.2 := by
  unfold secretMaterial at ok
  split at ok
  · cases ok
  · rename_i data isData
    split at ok
    · cases ok
    · rename_i ciphertext decoded
      split at ok
      · rename_i set sets
        obtain ⟨shares, decodedShares, ok⟩ := bind_ok_iff.mp ok
        split at ok
        · cases ok
        · cases ok
          exact ⟨data, set, isData, decoded, sets, decodedShares⟩
      · cases ok

/-- What an evaluated answer has passed, and what is taken from it at each position. -/
theorem evaluate_positions {threshold : Int} {requests : Slice Vault.SecretRequest}
    {out : Vault.GetSecretsResponse} {found : EncryptedSecrets}
    (ok : evaluate threshold requests out = .ok found) :
    checkResponses [] 0 out.responses.data = .ok () ∧
      ∀ (i : Nat) (req : Vault.SecretRequest), requests.data[i]? = some req →
        ∃ ciphertext shares, found.encryptedSecrets.data[i]? = some ciphertext ∧
          found.encryptedDecryptionShares.data[i]? = some shares ∧
          ∃ resp ∈ out.responses.data, resp.key = req.id.key ∧ resp.Holds ciphertext shares := by
  obtain ⟨_, checked, material, all, secrets, shares⟩ := evaluate_ok ok
  refine ⟨checked, fun i req isReq => ?_⟩
  obtain ⟨bound, isReq⟩ := List.getElem?_eq_some_iff.mp isReq
  have bound' : i < material.data.length := all.length_eq ▸ bound
  obtain ⟨resp, matching, taken⟩ := all.get bound bound'
  have isFirst := matchingResponse_ok matching
  refine ⟨(material.data.get ⟨i, bound'⟩).1, (material.data.get ⟨i, bound'⟩).2, ?_, ?_, resp,
    List.mem_of_find?_eq_some isFirst, ?_, secretMaterial_ok taken⟩
  · rw [secrets]
    simp [Slice.map, bound']
  · rw [shares]
    simp [Slice.map, bound']
  · have sameKey := List.find?_some isFirst
    rw [← isReq]
    simpa using sameKey

/-- The keys of the responses are distinct, so there is at most one response to choose. -/
theorem matched_iff {threshold : Int} {requests : Slice Vault.SecretRequest}
    {out : Vault.GetSecretsResponse} {found : EncryptedSecrets}
    (ok : evaluate threshold requests out = .ok found) :
    Matched requests out found ↔ IdentifiedByKey requests out := by
  obtain ⟨checked, positions⟩ := evaluate_positions ok
  obtain ⟨identified, nodup⟩ := checkResponses_ok checked
  have unique : ∀ a ∈ out.responses.data, ∀ b ∈ out.responses.data, a.key = b.key → a = b :=
    fun a among b among' same => List.inj_on_of_nodup_map nodup among among' same
  constructor
  · intro matched req isReq resp among id isID sameKey
    obtain ⟨i, isReq⟩ := List.mem_iff_getElem?.mp isReq
    obtain ⟨_, _, _, _, right, among', isID', _⟩ := matched i req isReq
    have same : resp = right := by
      apply unique resp among right among'
      rw [key_of_id isID, key_of_id isID', sameKey]
    subst same
    cases isID.symm.trans isID'
    exact ⟨rfl, rfl⟩
  · intro byKey i req isReq
    obtain ⟨ciphertext, shares, isCiphertext, isShares, resp, among, sameKey, holds⟩ :=
      positions i req isReq
    refine ⟨ciphertext, shares, isCiphertext, isShares, resp, among, ?_, holds⟩
    obtain ⟨id, isID⟩ := Option.ne_none_iff_exists'.mp (identified resp among).1
    rw [key_of_id isID] at sameKey
    obtain ⟨sameNamespace, sameOwner⟩ :=
      byKey req (List.mem_of_getElem? isReq) resp among id isID sameKey
    have same : id = req.id := by
      cases id
      cases isReqID : req.id
      rw [isReqID] at sameKey sameNamespace sameOwner
      cases sameKey
      cases sameNamespace
      cases sameOwner
      rfl
    rw [isID, same]

/-- A call that succeeds after it has asked the vault has evaluated the vault's answer. -/
theorem evaluated_of_sent {px : ExecutorPlatform} {e : Executor} {now later : Int}
    {secrets : Slice SecretIdentifier} {publicKey : Slice UInt8} {metadata : RequestMetadata}
    {w : VaultWorld} {request : VaultRequest} {found : EncryptedSecrets}
    (sent : (e.getEncryptedDecryptionShares px now later secrets publicKey metadata w).sent =
      some request)
    (ok : (e.getEncryptedDecryptionShares px now later secrets publicKey metadata w).result =
      .ok found) :
    request.requests = secretRequests px publicKey metadata.workflowOwner secrets ∧
      ∃ out, w.answer = .response out ∧
        evaluate e.cryptographyThreshold request.requests out = .ok found := by
  generalize called : e.getEncryptedDecryptionShares px now later secrets publicKey metadata w =
    fetched at sent ok
  unfold Executor.getEncryptedDecryptionShares at called
  split at called
  · subst called
    cases sent
  · split at called
    · subst called
      cases sent
    · split at called
      · subst called
        cases sent
      · split at called
        · subst called
          cases sent
        · split at called
          · subst called
            cases sent
          · rename_i asked
            split at called
            · subst called
              cases ok
            · rename_i evaluated
              subst called
              cases sent
              cases ok
              exact ⟨requests_vaultRequest asked, response_of_evaluate evaluated⟩

/-- A successful call that has asked the vault, for any list of secrets, any owner and any list
of responses. The ciphertext and the shares at each position are those of a response with the
key, the namespace and the owner of the request exactly when the responses with a requested
key have the namespace and the owner of the request. -/
theorem vault_responses_matched (px : ExecutorPlatform) (e : Executor) (now later : Int)
    (secrets : Slice SecretIdentifier) (publicKey : Slice UInt8) (metadata : RequestMetadata)
    (w : VaultWorld) (out : Vault.GetSecretsResponse) (answered : w.answer = .response out)
    (request : VaultRequest) (found : EncryptedSecrets)
    (sent : (e.getEncryptedDecryptionShares px now later secrets publicKey metadata w).sent =
      some request)
    (ok : (e.getEncryptedDecryptionShares px now later secrets publicKey metadata w).result =
      .ok found) :
    Matched (secretRequests px publicKey metadata.workflowOwner secrets) out found ↔
      IdentifiedByKey (secretRequests px publicKey metadata.workflowOwner secrets) out := by
  obtain ⟨requests, out', answered', evaluated⟩ := evaluated_of_sent sent ok
  cases answered.symm.trans answered'
  rw [requests] at evaluated
  exact matched_iff evaluated

namespace Sample

/-- The vault's answer for the secret `k` of one namespace. -/
def answersFor (n : UInt8) : Vault.GetSecretsResponse :=
  ⟨one (responseOf ⟨secretKey, one n, ∅⟩ 1), ∅⟩

/-- The given secrets are asked for under the keypair of the sample server. -/
def fetch (secrets : Slice SecretIdentifier) (w : VaultWorld) : FetchResult :=
  executor.getEncryptedDecryptionShares executorPlatform 0 0 secrets (signer 9) metadata w

def asked (secrets : Slice SecretIdentifier) : Slice Vault.SecretRequest :=
  secretRequests executorPlatform (signer 9) metadata.workflowOwner secrets

end Sample

section

open Sample

/-- Two secrets are asked for, and the vault answers for both of them in another order. -/
theorem vault_responses_matched_two_secrets :
    ∃ out found, vaultHoldsBoth.answer = .response out ∧
      (fetch twoKeys vaultHoldsBoth).result = .ok found ∧
      found.encryptedSecrets.data = [one 1, one 2] ∧ Matched (asked twoKeys) out found := by
  let found : EncryptedSecrets :=
    ⟨⟨[one 1, one 2], by decide⟩, ⟨[one (signer 6), one (signer 6)], by decide⟩, ∅⟩
  have ok : (fetch twoKeys vaultHoldsBoth).result = .ok found := by
    decide +kernel
  have sent : (fetch twoKeys vaultHoldsBoth).sent = some ⟨asked twoKeys, metadata⟩ := by
    decide +kernel
  refine ⟨_, found, rfl, ok, rfl, (vault_responses_matched executorPlatform executor 0 0 _ _ _ _ _
    rfl _ _ sent ok).mpr ?_⟩
  intro req isReq resp isResp id isID
  revert req resp id
  decide +kernel

/-- The secret `k` is asked for in two namespaces, and the vault answers for the first: the
second gets the ciphertext and the shares of the first. -/
theorem vault_response_of_other_namespace :
    ∃ found, (fetch bothSecrets (vaultAnswering (answersFor 1).responses)).sent.isSome = true ∧
      (fetch bothSecrets (vaultAnswering (answersFor 1).responses)).result = .ok found ∧
      ¬ Matched (asked bothSecrets) (answersFor 1) found := by
  let found : EncryptedSecrets :=
    ⟨⟨[one 1, one 1], by decide⟩, ⟨[one (signer 6), one (signer 6)], by decide⟩, ∅⟩
  have ok : (fetch bothSecrets (vaultAnswering (answersFor 1).responses)).result = .ok found := by
    decide +kernel
  have sent : (fetch bothSecrets (vaultAnswering (answersFor 1).responses)).sent.isSome = true := by
    decide +kernel
  refine ⟨found, sent, ok, fun matched => ?_⟩
  obtain ⟨_, _, _, _, resp, isResp, isID, _⟩ := matched 1 _ rfl
  cases List.mem_singleton.mp isResp
  exact absurd isID (by decide)

end

end ConfidentialCompute
