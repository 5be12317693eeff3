import ConfidentialCompute.Enclave.Execute
import ConfidentialCompute.Lib.TextCodec
import ConfidentialCompute.Sample

/-!
# Secrets that a workflow asks for while it runs

`GetSecrets` of the workflows app's dispatcher sends the identifiers of the requested secrets
to the relay DON, and turns the result on which a quorum of relay nodes agrees into one
response for each secret. The result is checked against the request and put into the order of
the request, since the workflow reads the responses by position.

`orderRelaySecrets` drops the repeats of an identifier before it does so, and a request that
names a secret twice gets fewer responses than it has entries. `decryptSecret` gives a secret
up at the first share that does not open, where `handleExecute` goes on with the others.

The exchange with the relay DON, `RelayQuorum` included, is an input here: it yields the
verified result or an error.
-/

namespace ConfidentialCompute

open Go

/-! ## Messages -/

/-- An entry of `sdkpb.GetSecretsRequest`. -/
structure SecretQuery where
  id : GoString
  secretNamespace : GoString
deriving DecidableEq

/-- `confidentialrelay.SecretIdentifier`, and `idKey`. -/
structure RelaySecretID where
  secretNamespace : GoString
  key : GoString
deriving DecidableEq

structure SecretEntry where
  id : RelaySecretID
  ciphertext : GoString
  encryptedShares : Slice GoString
deriving DecidableEq

structure SecretsResponseResult where
  secrets : List SecretEntry
  rawVaultPublicKey : GoString
deriving DecidableEq

/-- `sdkpb.SecretResponse`. -/
inductive SecretResponse where
  | secret (id secretNamespace : GoString) (value : Slice UInt8)
  | error (id secretNamespace : GoString) (error : Bytes)
deriving DecidableEq

def defaultSecretsNamespace : GoString := ⟨ascii "main", by decide⟩

/-- What is asked of the relay DON for one query. -/
def SecretQuery.identify (query : SecretQuery) : RelaySecretID where
  secretNamespace :=
    if query.secretNamespace.length = 0 then defaultSecretsNamespace else query.secretNamespace
  key := query.id

/-! ## The order of the result -/

/-- The first loop: the identifiers that are wanted, and their order without repeats. -/
def wanted (want : Finset RelaySecretID) :
    List RelaySecretID → Finset RelaySecretID × List RelaySecretID
  | [] => (want, [])
  | s :: rest =>
      if s ∈ want then wanted want rest
      else
        let later := wanted (insert s want) rest
        (later.1, s :: later.2)

def RelaySecretID.text (id : RelaySecretID) : Bytes :=
  id.secretNamespace.data ++ ascii "/" ++ id.key.data

/-- The second loop: the entries by identifier. -/
def collectEntries (want : Finset RelaySecretID) :
    List SecretEntry → GoMap RelaySecretID SecretEntry →
      Except Bytes (GoMap RelaySecretID SecretEntry)
  | [], byID => .ok byID
  | entry :: rest, byID =>
      if entry.id ∉ want then
        .error (ascii "unexpected secret " ++ entry.id.text ++ ascii " not in request")
      else if (byID.lookup entry.id).isSome then
        .error (ascii "duplicate secret " ++ entry.id.text ++ ascii " in response")
      else collectEntries want rest (byID.insert entry.id entry)

/-- An identifier with its entry, if the relay has sent one. -/
structure OrderedSecret where
  id : RelaySecretID
  entry : Option SecretEntry

def orderRelaySecrets (requested : List RelaySecretID) (got : List SecretEntry) :
    Except Bytes (List OrderedSecret) :=
  let found := wanted ∅ requested
  match collectEntries found.1 got ∅ with
  | .error e => .error e
  | .ok byID => .ok (found.2.map fun id => ⟨id, byID.lookup id⟩)

/-! ## Decryption -/

def DecryptError.text : DecryptError → Bytes
  | .expired ageMs ttlMs =>
      ascii "keypair has expired: " ++ ascii (toString ageMs) ++ ascii "ms old, TTL: " ++
        ascii (toString ttlMs) ++ ascii "ms"
  | .failed => ascii "decryption failed"

/-- The loop over the shares. The first one that cannot be decoded or decrypted ends it. -/
def decryptRelayShares (p : Platform) (kp : BoxKeypair) (now : Int) :
    Nat → List GoString → Except Bytes (List (Slice UInt8))
  | _, [] => .ok []
  | i, encShare :: rest =>
      match Base64.decodeString encShare with
      | .error offset =>
          .error (ascii "decoding share " ++ decimal i ++ ascii ": " ++
            Base64.corruptInputText offset)
      | .ok encBytes =>
          match kp.decrypt p.boxOpenAnonymous now encBytes with
          | .error e => .error (ascii "decrypting share " ++ decimal i ++ ascii ": " ++ e.text)
          | .ok share =>
              match decryptRelayShares p kp now (i + 1) rest with
              | .error e => .error e
              | .ok shares => .ok (share :: shares)

def decryptSecret (p : Platform) (kp : BoxKeypair) (now : Int) (masterPK : Slice UInt8)
    (threshold : Nat) (entry : SecretEntry) : Except Bytes (Slice UInt8) :=
  match Base64.decodeString entry.ciphertext with
  | .error offset =>
      .error (ascii "decoding ciphertext: " ++ Base64.corruptInputText offset)
  | .ok ciphertext =>
      match decryptRelayShares p kp now 0 entry.encryptedShares.data with
      | .error e => .error e
      | .ok shares =>
          match p.aggregateShares ciphertext shares masterPK threshold with
          | .error e => .error (ascii e)
          | .ok plaintext => .ok plaintext

/-! ## Responses -/

/-- The key in the result takes precedence, unless it does not decode. -/
def relayMasterPublicKey (cfg : EnclaveConfig) (raw : GoString) : Slice UInt8 :=
  if raw.length = 0 then cfg.masterPublicKey
  else
    match Hex.decodeString raw with
    | .error _ => cfg.masterPublicKey
    | .ok pk => pk

/-- The response for one identifier. -/
def OrderedSecret.respond (p : Platform) (kp : BoxKeypair) (now : Int) (masterPK : Slice UInt8)
    (threshold : Nat) (os : OrderedSecret) : SecretResponse :=
  match os.entry with
  | none =>
      .error os.id.key os.id.secretNamespace (ascii "secret missing from relay response")
  | some entry =>
      match decryptSecret p kp now masterPK threshold entry with
      | .error e => .error entry.id.key entry.id.secretNamespace e
      | .ok plaintext => .secret entry.id.key entry.id.secretNamespace plaintext

/-- `GetSecrets`, given the request's keypair and the end of the exchange with the relay DON. -/
def getSecrets (p : Platform) (cfg : EnclaveConfig) (now : Int) (queries : List SecretQuery)
    (keypair : Except Bytes BoxKeypair) (verified : Except Bytes SecretsResponseResult) :
    Except Bytes (List SecretResponse) :=
  match keypair with
  | .error e => .error (ascii "getting keypair for request: " ++ e)
  | .ok kp =>
      match verified with
      | .error e => .error e
      | .ok result =>
          match orderRelaySecrets (queries.map (·.identify)) result.secrets with
          | .error e => .error (ascii "validating secrets response: " ++ e)
          | .ok ordered =>
              .ok (ordered.map (OrderedSecret.respond p kp now
                (relayMasterPublicKey cfg result.rawVaultPublicKey) cfg.t.toNat))

/-! ## Positions -/

theorem wanted_sublist (want : Finset RelaySecretID) (requested : List RelaySecretID) :
    (wanted want requested).2.Sublist requested := by
  induction requested generalizing want with
  | nil => exact .slnil
  | cons s rest ih =>
      unfold wanted
      split
      · exact (ih want).cons s
      · exact (ih (insert s want)).cons_cons s

/-- Nothing is dropped exactly when nothing is repeated. -/
theorem wanted_eq_iff {want : Finset RelaySecretID} {requested : List RelaySecretID} :
    (wanted want requested).2 = requested ↔
      requested.Nodup ∧ ∀ s ∈ requested, s ∉ want := by
  induction requested generalizing want with
  | nil => simp [wanted]
  | cons s rest ih =>
      unfold wanted
      rw [List.nodup_cons]
      split
      · rename_i seen
        have shorter := (wanted_sublist want rest).length_le
        constructor
        · intro same
          rw [same, List.length_cons] at shorter
          omega
        · intro ⟨_, fresh⟩
          exact absurd seen (fresh s List.mem_cons_self)
      · rename_i unseen
        rw [List.cons.injEq, ih]
        simp only [true_and, Finset.mem_insert, List.mem_cons, forall_eq_or_imp]
        constructor
        · intro ⟨nodup, fresh⟩
          refine ⟨⟨fun again => fresh s again (Or.inl rfl), nodup⟩, unseen, fun x among seen => ?_⟩
          exact fresh x among (Or.inr seen)
        · intro ⟨⟨once, nodup⟩, _, fresh⟩
          refine ⟨nodup, fun x among seen => ?_⟩
          rcases seen with rfl | seen
          · exact once among
          · exact fresh x among seen

theorem collectEntries_id {want : Finset RelaySecretID} {got : List SecretEntry}
    {byID byID' : GoMap RelaySecretID SecretEntry}
    (ok : collectEntries want got byID = .ok byID')
    (own : ∀ id entry, byID.lookup id = some entry → entry.id = id) :
    ∀ id entry, byID'.lookup id = some entry → entry.id = id := by
  induction got generalizing byID with
  | nil =>
      cases ok
      exact own
  | cons entry rest ih =>
      unfold collectEntries at ok
      split at ok
      · cases ok
      · split at ok
        · cases ok
        · exact ih ok (forall_lookup_insert own rfl)

/-- The identifiers of the result are those that are wanted, and entries are their own. -/
theorem orderRelaySecrets_ok {requested : List RelaySecretID} {got : List SecretEntry}
    {ordered : List OrderedSecret} (ok : orderRelaySecrets requested got = .ok ordered) :
    ordered.map (·.id) = (wanted ∅ requested).2 ∧
      ∀ os ∈ ordered, ∀ entry, os.entry = some entry → entry.id = os.id := by
  unfold orderRelaySecrets at ok
  dsimp only at ok
  split at ok
  · cases ok
  · rename_i byID collected
    cases ok
    refine ⟨?_, fun os member entry isEntry => ?_⟩
    · rw [List.map_map]
      exact List.map_id _
    · obtain ⟨id, _, rfl⟩ := List.mem_map.mp member
      exact collectEntries_id collected (fun id entry none_ => by cases none_) id entry isEntry

/-- The response is the secret that was asked for, or an error with its id. -/
def SecretResponse.Answers (query : SecretQuery) : SecretResponse → Prop
  | .secret id secretNamespace _ => ⟨secretNamespace, id⟩ = query.identify
  | .error id _ _ => id = query.id

/-- There are as many responses as queries, and each one answers the query at its position. -/
structure Aligned (queries : List SecretQuery) (responses : List SecretResponse) : Prop where
  length : responses.length = queries.length
  answers : ∀ (i : Nat) query response, queries[i]? = some query →
    responses[i]? = some response → response.Answers query

theorem respond_answers {p : Platform} {kp : BoxKeypair} {now : Int} {masterPK : Slice UInt8}
    {threshold : Nat} {os : OrderedSecret} {query : SecretQuery} (same : os.id = query.identify)
    (own : ∀ entry, os.entry = some entry → entry.id = os.id) :
    (os.respond p kp now masterPK threshold).Answers query := by
  unfold OrderedSecret.respond
  split
  · rw [same]
    rfl
  · rename_i entry isEntry
    have isQuery : entry.id = query.identify := (own entry isEntry).trans same
    split
    · rw [isQuery]
      rfl
    · exact isQuery

/-- **Positions of secrets.** For every list of queries and every verified result whose secrets
are accepted, `GetSecrets` returns responses. They stand at the positions of their queries
exactly when no two queries have the same id and, after the default, the same namespace. -/
theorem secrets_aligned (p : Platform) (cfg : EnclaveConfig) (now : Int)
    (queries : List SecretQuery) (kp : BoxKeypair) (result : SecretsResponseResult)
    (ordered : List OrderedSecret)
    (accepted : orderRelaySecrets (queries.map (·.identify)) result.secrets = .ok ordered) :
    ∃ responses, getSecrets p cfg now queries (.ok kp) (.ok result) = .ok responses ∧
      (Aligned queries responses ↔ (queries.map (·.identify)).Nodup) := by
  obtain ⟨ids, own⟩ := orderRelaySecrets_ok accepted
  let respond := OrderedSecret.respond p kp now
    (relayMasterPublicKey cfg result.rawVaultPublicKey) cfg.t.toNat
  refine ⟨ordered.map respond, ?_, ?_, ?_⟩
  · simp only [getSecrets, accepted]
    rfl
  · intro aligned
    have length : (wanted ∅ (queries.map (·.identify))).2.length =
        (queries.map (·.identify)).length := by
      rw [← ids, List.length_map, List.length_map, ← aligned.length, List.length_map]
    exact (wanted_eq_iff.mp ((wanted_sublist _ _).length_eq.mp length)).1
  · intro nodup
    rw [wanted_eq_iff.mpr ⟨nodup, fun s _ => Finset.notMem_empty s⟩] at ids
    refine ⟨?_, fun i query response isQuery isResponse => ?_⟩
    · have length := congrArg List.length ids
      rw [List.length_map, List.length_map] at length
      rw [List.length_map, length]
    · rw [List.getElem?_map] at isResponse
      obtain ⟨os, isOrdered, rfl⟩ := Option.map_eq_some_iff.mp isResponse
      have same : os.id = query.identify := by
        have at_ := congrArg (·[i]?) ids
        simp only [List.getElem?_map, isOrdered, isQuery, Option.map_some] at at_
        exact Option.some.inj at_
      exact respond_answers same (own os (List.mem_of_getElem? isOrdered))

namespace Sample

def queryIn (secretNamespace : GoString) : SecretQuery :=
  ⟨secretKey, secretNamespace⟩

def entryWith (encryptedShares : Slice GoString) : SecretEntry :=
  ⟨(queryIn ∅).identify, ⟨ascii "AQ==", by decide⟩, encryptedShares⟩

def goodShare : GoString := ⟨ascii "Ag==", by decide⟩

/-- The relay has sent the secret `k` of the default namespace. -/
def relayResult : SecretsResponseResult := ⟨[entryWith (one goodShare)], ∅⟩

def relayKeypair : BoxKeypair := ⟨key 9, key 9, defaultKeypairExpiration, 0⟩

end Sample

section

open Sample

/-- Two namespaces are asked for and the relay knows one of them: the responses are the secret
and an error, in this order. -/
theorem secrets_aligned_one_missing :
    ∃ responses, getSecrets platform (config 0) 0 [queryIn ∅, queryIn (one 1)] (.ok relayKeypair)
        (.ok relayResult) = .ok responses ∧
      Aligned [queryIn ∅, queryIn (one 1)] responses := by
  obtain ⟨responses, returned, aligned⟩ := secrets_aligned platform (config 0) 0
    [queryIn ∅, queryIn (one 1)] relayKeypair relayResult _ rfl
  exact ⟨responses, returned, aligned.mpr (by decide)⟩

/-- The same secret is asked for twice, once with the default namespace left out. -/
theorem secrets_misaligned :
    ∃ responses, getSecrets platform (config 0) 0 [queryIn ∅, queryIn defaultSecretsNamespace]
        (.ok relayKeypair) (.ok relayResult) = .ok responses ∧ responses.length = 1 ∧
      ¬ Aligned [queryIn ∅, queryIn defaultSecretsNamespace] responses := by
  refine ⟨[.secret ⟨ascii "k", by decide⟩ defaultSecretsNamespace (one 1)], by decide +kernel,
    rfl, fun aligned => ?_⟩
  cases aligned.length

end

/-! ## Faulty shares -/

/-- The share decodes and decrypts. -/
def Opens (p : Platform) (kp : BoxKeypair) (now : Int) (encShare : GoString)
    (share : Slice UInt8) : Prop :=
  ∃ encBytes, Base64.decodeString encShare = .ok encBytes ∧
    kp.decrypt p.boxOpenAnonymous now encBytes = .ok share

/-- The shares of an entry as bytes; those that do not decode are left out. -/
def SecretEntry.decodableShares (entry : SecretEntry) : Slice (Slice UInt8) :=
  ⟨entry.encryptedShares.data.filterMap fun encShare => (Base64.decodeString encShare).toOption,
    Nat.lt_of_le_of_lt (List.length_filterMap_le _ _) entry.encryptedShares.bound⟩

section

variable {p : Platform} {kp : BoxKeypair} {now : Int}

/-- The loop gets to its end only if every share opens. -/
theorem opens_of_decryptRelayShares {i : Nat} {encShares : List GoString}
    {shares : List (Slice UInt8)}
    (opened : decryptRelayShares p kp now i encShares = .ok shares) :
    ∀ encShare ∈ encShares, ∃ share, Opens p kp now encShare share := by
  induction encShares generalizing i shares with
  | nil => simp
  | cons first rest ih =>
      unfold decryptRelayShares at opened
      split at opened
      · cases opened
      · rename_i encBytes decoded
        split at opened
        · cases opened
        · rename_i share decrypted
          split at opened
          · cases opened
          · rename_i later
            intro encShare among
            rcases List.mem_cons.mp among with rfl | among
            · exact ⟨share, encBytes, decoded, decrypted⟩
            · exact ih later encShare among

/-- If every share opens, the loop returns what `handleExecute` makes of the decodable ones. -/
theorem decryptRelayShares_of_opens {i : Nat} {encShares : List GoString}
    (opens : ∀ encShare ∈ encShares, ∃ share, Opens p kp now encShare share) :
    decryptRelayShares p kp now i encShares =
      .ok ((encShares.filterMap fun encShare => (Base64.decodeString encShare).toOption).filterMap
        fun share => (kp.decrypt p.boxOpenAnonymous now share).toOption) := by
  induction encShares generalizing i with
  | nil => rfl
  | cons first rest ih =>
      obtain ⟨share, encBytes, decoded, decrypted⟩ := opens first List.mem_cons_self
      have later := ih (i := i + 1) fun encShare among =>
        opens encShare (List.mem_cons_of_mem _ among)
      have isDecoded : (Base64.decodeString first).toOption = some encBytes := by
        rw [decoded]
        rfl
      have isDecrypted : (kp.decrypt p.boxOpenAnonymous now encBytes).toOption = some share := by
        rw [decrypted]
        rfl
      unfold decryptRelayShares
      simp only [List.filterMap_cons, isDecoded, isDecrypted]
      rw [decoded]
      dsimp only
      rw [decrypted, later]

theorem nodeSecrets_single {masterPK ciphertext plaintext : Slice UInt8} {threshold : Nat}
    {shares : Slice (Slice UInt8)} {name : GoString} {secrets : Secrets}
    (recovered : nodeSecrets p kp now masterPK threshold [ciphertext] [shares] [name] ∅ =
      .ok secrets) (found : secrets.lookup name = some plaintext) :
    p.aggregateShares ciphertext (decryptShares p kp now shares) masterPK threshold =
      .ok plaintext := by
  unfold nodeSecrets at recovered
  split at recovered
  · cases recovered
  · rename_i secret aggregated
    cases recovered
    rw [Finmap.lookup_insert] at found
    cases found
    exact aggregated

end

/-- An entry with a decodable ciphertext and any shares, of which the loop of `handleExecute`
recovers a plaintext when it is given those that decode. `decryptSecret` recovers it exactly
when every share decodes and decrypts. -/
theorem relay_secret_recovered (p : Platform) (kp : BoxKeypair) (now : Int)
    (masterPK : Slice UInt8) (threshold : Nat) (entry : SecretEntry)
    (ciphertext plaintext : Slice UInt8) (name : GoString) (secrets : Secrets)
    (decoded : Base64.decodeString entry.ciphertext = .ok ciphertext)
    (recovered : nodeSecrets p kp now masterPK threshold [ciphertext] [entry.decodableShares]
      [name] ∅ = .ok secrets) (found : secrets.lookup name = some plaintext) :
    decryptSecret p kp now masterPK threshold entry = .ok plaintext ↔
      ∀ encShare ∈ entry.encryptedShares, ∃ share, Opens p kp now encShare share := by
  have aggregated := nodeSecrets_single recovered found
  unfold decryptSecret
  rw [decoded]
  dsimp only
  constructor
  · intro succeeded
    split at succeeded
    · cases succeeded
    · rename_i opened
      exact opens_of_decryptRelayShares opened
  · intro opens
    rw [decryptRelayShares_of_opens opens]
    unfold decryptShares SecretEntry.decodableShares at aggregated
    dsimp only at aggregated ⊢
    rw [aggregated]

namespace Sample

def twoShares : Slice GoString := ⟨[goodShare, ⟨ascii "Aw==", by decide⟩], by decide⟩

/-- One share does not open, and it stands first. -/
def faultyEntry : SecretEntry := entryWith ⟨[∅, goodShare], by decide⟩

end Sample

section

open Sample

/-- Two shares are needed, and both open. -/
theorem relay_secret_recovered_two_shares :
    decryptSecret platform relayKeypair 0 ∅ 2 (entryWith twoShares) = .ok (one 1) := by
  refine (relay_secret_recovered platform relayKeypair 0 ∅ 2 (entryWith twoShares)
    (one 1) (one 1) secretKey _ rfl rfl (Finmap.lookup_insert _)).mpr ?_
  intro encShare among
  rcases List.mem_cons.mp among with rfl | among
  · exact ⟨one 2, one 2, by decide, by decide⟩
  · cases List.mem_singleton.mp among
    exact ⟨one 3, one 3, by decide, by decide⟩

/-- `handleExecute` recovers the secret from the second share, `decryptSecret` fails at the
first. -/
theorem relay_secret_lost :
    Base64.decodeString faultyEntry.ciphertext = .ok (one 1) ∧
      nodeSecrets platform relayKeypair 0 ∅ 1 [one 1] [faultyEntry.decodableShares]
        [secretKey] ∅ = .ok (Finmap.insert secretKey (one 1) ∅) ∧
      decryptSecret platform relayKeypair 0 ∅ 1 faultyEntry =
        .error (ascii "decrypting share 0: decryption failed") := by
  exact ⟨rfl, rfl, by decide⟩

end

end ConfidentialCompute
