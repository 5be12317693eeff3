import ConfidentialCompute.Executor.Matching

/-!
# The order of the vault's responses

The vault may list its responses in any order. The first loop over them rejects a list in which a
key occurs twice, so the second loop, which takes the first response with the key of a request,
has no choice to make. What is taken, cached and signed is therefore the same for every order of
the responses.
-/

namespace ConfidentialCompute

open Go

/-! ## The loops -/

/-- What is found is the same in any order if there is one at most. -/
theorem find?_eq_of_perm {α : Type} {p : α → Bool} {as bs : List α}
    (unique : ∀ a ∈ as, ∀ b ∈ as, p a = true → p b = true → a = b) (perm : as.Perm bs) :
    as.find? p = bs.find? p := by
  cases found : as.find? p with
  | none =>
      refine (List.find?_eq_none.mpr fun b among => ?_).symm
      exact List.find?_eq_none.mp found b (perm.mem_iff.mpr among)
  | some a =>
      have among := List.mem_of_find?_eq_some found
      have holds := List.find?_some found
      cases found' : bs.find? p with
      | none => exact (List.find?_eq_none.mp found' a (perm.mem_iff.mp among) holds).elim
      | some b =>
          have among' := perm.mem_iff.mpr (List.mem_of_find?_eq_some found')
          rw [unique a among b among' holds (List.find?_some found')]

theorem checkResponses_perm {responses responses' : List Vault.SecretResponse}
    (perm : responses.Perm responses') (ok : checkResponses [] 0 responses = .ok ()) :
    checkResponses [] 0 responses' = .ok () := by
  obtain ⟨each, nodup⟩ := checkResponses_ok_iff.mp ok
  exact checkResponses_ok_iff.mpr
    ⟨fun resp among => each resp (perm.mem_iff.mpr among), (perm.map _).nodup_iff.mp nodup⟩

theorem matchingResponse_perm {responses responses' : List Vault.SecretResponse}
    (perm : responses.Perm responses') (nodup : (responses.map (·.key)).Nodup) :
    matchingResponse responses = matchingResponse responses' := by
  funext req
  unfold matchingResponse
  rw [find?_eq_of_perm (fun a among b among' isA isB => ?_) perm]
  exact List.inj_on_of_nodup_map nodup among among'
    ((of_decide_eq_true isA).trans (of_decide_eq_true isB).symm)

/-! ## The answer -/

theorem evaluate_perm {threshold : Int} {requests : Slice Vault.SecretRequest}
    {out : Vault.GetSecretsResponse} {responses : Slice Vault.SecretResponse}
    {found : EncryptedSecrets} (perm : out.responses.data.Perm responses.data)
    (ok : evaluate threshold requests out = .ok found) :
    evaluate threshold requests { out with responses := responses } = .ok found := by
  unfold evaluate at ok ⊢
  obtain ⟨rawVaultPublicKey, decoded, ok⟩ := bind_ok_iff.mp ok
  obtain ⟨_, checked, ok⟩ := bind_ok_iff.mp ok
  rw [matchingResponse_perm perm (checkResponses_ok_iff.mp checked).2] at ok
  exact bind_ok_iff.mpr ⟨rawVaultPublicKey, decoded,
    bind_ok_iff.mpr ⟨(), checkResponses_perm perm checked, ok⟩⟩

/-- A response holds one ciphertext and one list of shares. -/
theorem Vault.SecretResponse.Holds.unique {resp : Vault.SecretResponse}
    {ciphertext ciphertext' : Slice UInt8} {shares shares' : Slice (Slice UInt8)}
    (holds : resp.Holds ciphertext shares) (holds' : resp.Holds ciphertext' shares') :
    ciphertext = ciphertext' ∧ shares = shares' := by
  obtain ⟨data, set, isData, decoded, isSet, decodedShares⟩ := holds
  obtain ⟨data', set', isData', decoded', isSet', decodedShares'⟩ := holds'
  cases isData.symm.trans isData'
  cases isSet.symm.trans isSet'
  exact ⟨Except.ok.inj (decoded.symm.trans decoded'),
    Except.ok.inj (decodedShares.symm.trans decodedShares')⟩

/-- The threshold decides whether the answer is accepted, not what is taken from it. -/
theorem evaluate_unique {threshold threshold' : Int} {requests : Slice Vault.SecretRequest}
    {out : Vault.GetSecretsResponse} {found found' : EncryptedSecrets}
    (ok : evaluate threshold requests out = .ok found)
    (ok' : evaluate threshold' requests out = .ok found') : found = found' := by
  let R (req : Vault.SecretRequest) (entry : Slice UInt8 × Slice (Slice UInt8)) : Prop :=
    ∃ resp, matchingResponse out.responses.data req = .ok resp ∧ resp.Holds entry.1 entry.2
  have functional : Relator.RightUnique R := by
    rintro req ⟨_, _⟩ ⟨_, _⟩ ⟨resp, matched, holds⟩ ⟨resp', matched', holds'⟩
    cases matched.symm.trans matched'
    exact Prod.ext_iff.mpr (holds.unique holds')
  have taken : ∀ {t found}, evaluate t requests out = .ok found →
      decodeVaultPublicKey out.rawVaultPublicKey = .ok found.rawVaultPublicKey ∧
        ∃ material : Slice (Slice UInt8 × Slice (Slice UInt8)),
          List.Forall₂ R requests.data material.data ∧
          found.encryptedSecrets = material.map (·.1) ∧
          found.encryptedDecryptionShares = material.map (·.2) := by
    intro t found ok
    obtain ⟨decoded, _, material, all, isSecrets, isShares⟩ := evaluate_ok ok
    refine ⟨decoded, material, all.imp ?_, isSecrets, isShares⟩
    rintro req entry ⟨resp, matched, isEntry⟩
    exact ⟨resp, matched, secretMaterial_ok isEntry⟩
  obtain ⟨isKey, material, all, isSecrets, isShares⟩ := taken ok
  obtain ⟨isKey', material', all', isSecrets', isShares'⟩ := taken ok'
  obtain rfl : material = material' :=
    Slice.data_injective (List.right_unique_forall₂' functional all all')
  cases found
  cases found'
  cases isKey.symm.trans isKey'
  rw [EncryptedSecrets.mk.injEq]
  exact ⟨isSecrets.trans isSecrets'.symm, isShares.trans isShares'.symm, rfl⟩

/-! ## The call -/

/-- The vault answers with the responses in another order. -/
def VaultWorld.reordered (w : VaultWorld) (out : Vault.GetSecretsResponse)
    (responses : Slice Vault.SecretResponse) : VaultWorld :=
  { w with answer := .response { out with responses := responses } }

/-- Two ends of a call that returned the same, or failed both, and left one executor behind. -/
def FetchResult.Agrees (a b : FetchResult) : Prop :=
  a.executor = b.executor ∧ a.sent = b.sent ∧
    (a.result = b.result ∨ ∃ err err', a.result = .err err ∧ b.result = .err err')

theorem FetchResult.Agrees.of_eq {a b : FetchResult} (same : a = b) : a.Agrees b := by
  subst same
  exact ⟨rfl, rfl, Or.inl rfl⟩

theorem getEncryptedDecryptionShares_reordered {px : ExecutorPlatform} {e : Executor}
    {now later : Int} {secrets : Slice SecretIdentifier} {publicKey : Slice UInt8}
    {metadata : RequestMetadata} {w : VaultWorld} {out : Vault.GetSecretsResponse}
    {responses : Slice Vault.SecretResponse} (answered : w.answer = .response out)
    (perm : out.responses.data.Perm responses.data) :
    (e.getEncryptedDecryptionShares px now later secrets publicKey metadata w).Agrees
      (e.getEncryptedDecryptionShares px now later secrets publicKey metadata
        (w.reordered out responses)) := by
  have request : vaultRequest px publicKey metadata secrets (w.reordered out responses) =
      vaultRequest px publicKey metadata secrets w := rfl
  unfold Executor.getEncryptedDecryptionShares
  rw [request]
  split
  · exact .of_eq rfl
  · split
    · exact .of_eq rfl
    · split
      · exact .of_eq rfl
      · split
        · exact .of_eq rfl
        · split
          · exact .of_eq rfl
          · rename_i req _
            rw [answered]
            unfold VaultWorld.reordered VaultAnswer.evaluate
            dsimp only
            cases evaluated : evaluate e.cryptographyThreshold req.requests out with
            | ok found =>
                rw [evaluate_perm perm evaluated]
                exact .of_eq rfl
            | error err =>
                cases evaluated' : evaluate e.cryptographyThreshold req.requests
                    { out with responses := responses } with
                | ok found =>
                    have back : evaluate e.cryptographyThreshold req.requests out = .ok found :=
                      @evaluate_perm _ _ { out with responses := responses } out.responses _
                        perm.symm evaluated'
                    cases evaluated.symm.trans back
                | error err' => exact ⟨rfl, rfl, Or.inr ⟨err, err', rfl, rfl⟩⟩

/-- The vault's responses may come in any order: a call returns the same ciphertexts, shares and
key and leaves the same executor behind, its cache included, or it fails for both orders. Two nodes
with one capability that are given the responses in different orders, whatever they have cached and
whatever number of shares they ask for, sign requests with one hash. -/
theorem response_order_irrelevant (px : ExecutorPlatform) (secrets : Slice SecretIdentifier)
    (publicKey : Slice UInt8) (metadata : RequestMetadata) (out : Vault.GetSecretsResponse)
    (responses : Slice Vault.SecretResponse) (perm : out.responses.data.Perm responses.data) :
    (∀ (e : Executor) (now later : Int) (w : VaultWorld), w.answer = .response out →
      (e.getEncryptedDecryptionShares px now later secrets publicKey metadata w).Agrees
        (e.getEncryptedDecryptionShares px now later secrets publicKey metadata
          (w.reordered out responses))) ∧
    (∀ (e e' : Executor) (now later now' later' : Int) (w w' : VaultWorld)
      (protoBytes : Option (Slice UInt8)) (req req' : ComputeRequest),
      e.capabilityID = e'.capabilityID →
      e.confidentialComputeVersion = e'.confidentialComputeVersion →
      w.answer = .response out → w'.answer = .response { out with responses := responses } →
      (e.getEncryptedDecryptionShares px now later secrets publicKey metadata w).sent ≠ none →
      (e'.getEncryptedDecryptionShares px now' later' secrets publicKey metadata w').sent ≠ none →
      (e.prepareRequest px now later protoBytes secrets publicKey metadata w).2 = .ok req →
      (e'.prepareRequest px now' later' protoBytes secrets publicKey metadata w').2 = .ok req' →
      req.hash px.toCrypto = req'.hash px.toCrypto) := by
  refine ⟨fun e now later w answered => getEncryptedDecryptionShares_reordered answered perm, ?_⟩
  intro e e' now later now' later' w w' protoBytes req req' capability version answered answered'
    asked asked' ok ok'
  obtain ⟨input, found, isInput, rfl, fetched⟩ := prepareRequest_ok ok
  obtain ⟨input', found', isInput', rfl, fetched'⟩ := prepareRequest_ok ok'
  obtain ⟨request, sent⟩ := Option.ne_none_iff_exists'.mp asked
  obtain ⟨request', sent'⟩ := Option.ne_none_iff_exists'.mp asked'
  obtain ⟨requests, taken, isTaken, evaluated⟩ := evaluated_of_sent sent fetched
  obtain ⟨requests', taken', isTaken', evaluated'⟩ := evaluated_of_sent sent' fetched'
  cases answered.symm.trans isTaken
  cases answered'.symm.trans isTaken'
  cases isInput.symm.trans isInput'
  rw [requests] at evaluated
  rw [requests'] at evaluated'
  cases evaluate_unique (evaluate_perm perm evaluated) evaluated'
  unfold Executor.computeRequest
  rw [capability, version]

namespace Sample

/-- The responses for two secrets, in the order of the request. -/
def inOrder : Slice Vault.SecretResponse :=
  ⟨[responseOf ⟨secretKey, one 1, ∅⟩ 1, responseOf ⟨otherKey, one 2, ∅⟩ 2],
    by decide⟩

/-- An executor that caches nothing and asks for fewer shares. -/
def otherExecutor : Executor :=
  { executor with enableSecretsCache := false, cryptographyThreshold := 0 }

end Sample

section

open Sample

/-- Two secrets are asked for. One node is given the responses in the order of the request, the
other in the reverse order. -/
theorem two_responses_reordered :
    ∃ out found req req', vaultHoldsBoth.answer = .response out ∧
      (fetch twoKeys vaultHoldsBoth).result = .ok found ∧ found.encryptedSecrets.length = 2 ∧
      (fetch twoKeys (vaultHoldsBoth.reordered out inOrder)).result = .ok found ∧
      (attempt executor twoKeys vaultHoldsBoth).2 = .ok req ∧
      (attempt otherExecutor twoKeys (vaultHoldsBoth.reordered out inOrder)).2 = .ok req' ∧
      req.hash crypto = req'.hash crypto := by
  let found : EncryptedSecrets :=
    ⟨⟨[one 1, one 2], by decide⟩, ⟨[one (signer 6), one (signer 6)], by decide⟩, ∅⟩
  let out : Vault.GetSecretsResponse := ⟨⟨inOrder.data.reverse, by decide⟩, ∅⟩
  have ok : (fetch twoKeys vaultHoldsBoth).result = .ok found := by
    decide +kernel
  have prepared : (attempt executor twoKeys vaultHoldsBoth).2 =
      .ok (executor.computeRequest crypto ∅ twoKeys (signer 9) metadata found) := by
    decide +kernel
  have prepared' : (attempt otherExecutor twoKeys (vaultHoldsBoth.reordered out inOrder)).2 =
      .ok (executor.computeRequest crypto ∅ twoKeys (signer 9) metadata found) := by
    decide +kernel
  obtain ⟨agrees, hashes⟩ := response_order_irrelevant executorPlatform twoKeys (signer 9) metadata
    out inOrder (List.reverse_perm _)
  obtain ⟨_, _, same⟩ := agrees executor 0 0 vaultHoldsBoth rfl
  refine ⟨out, found, _, _, rfl, ok, rfl, ?_, prepared, prepared',
    hashes executor otherExecutor 0 0 0 0 vaultHoldsBoth (vaultHoldsBoth.reordered out inOrder) _
      _ _ rfl rfl rfl rfl (by decide +kernel) (by decide +kernel) prepared prepared'⟩
  rcases same with same | ⟨err, _, failed, _⟩
  · exact same.symm.trans ok
  · cases ok.symm.trans failed

end

end ConfidentialCompute
